import Timpani.Node.Timer

/-!
# Starting and stopping TimerMaster

`start`, `stop`, `set_schedule_table` and `remove_workload` are called by the main thread and by the
thread that reads the stream of the orchestrator.  A change of the slot table is made under
`schedule_mutex_`; the threads are stopped, joined and spawned under `lifecycle_mutex_`, which `start`
holds while it takes `schedule_mutex_` twice, for the slots and for the hyperperiod.  The threads
themselves read two flags without a lock, and take `schedule_mutex_` to wake a task.

Any number of calls may be in progress.  Each critical section is one action or more, such that all
reads and writes of the two flags are actions of their own.

* `Lifecycle.machine` : calls and threads in any interleaving;
* `Lifecycle.settled_of_reachable` : **no table is lost**: when all calls have returned, TimerMaster is
  stopped without threads, or runs exactly the threads of its current table, one per CPU;
* `Lifecycle.exists_drains_idle` : **calls return**: the calls in progress can always all return,
  although `stop` waits for threads that wait for a mutex;
* `Schedule.mem_jobs_iff` : the threads are those of `TimedDaemon.start`.
-/

namespace Timpani

namespace TimerMaster

/-! ### Threads -/

/-- What `schedule_mutex_` guards. -/
structure Schedule where
  slotTable : List SlotEntry
  hyperperiodNs : UInt64
  epochNs : UInt64
  deriving DecidableEq

/-- What a thread is spawned for. -/
inductive Job where
  /-- There are no slots yet. -/
  | idle
  | cpu (cpu : UInt32) (cpuSlots : List SlotEntry) (hyperperiodNs epochNs : UInt64)
  deriving DecidableEq

/-- The threads `start` spawns: one per CPU with slots, or an idle one. -/
def Schedule.jobs (s : Schedule) : List Job :=
  if s.slotTable = [] then [.idle]
  else (stdSet (s.slotTable.map (·.cpu))).map fun cpu =>
    .cpu cpu (s.slotTable.filter fun e => e.cpu = cpu) s.hyperperiodNs s.epochNs

/-- Where a thread is: `outer` and `inner` are the tops of the two loops, where `running_` is read;
`outerUp` and `innerUp` is where `table_pending_` is read next. -/
inductive Loop where
  | outer
  | outerUp
  | inner
  | innerUp
  /-- In the body of the inner loop. -/
  | asleep
  | exited
  deriving DecidableEq, Repr

structure Worker where
  job : Job
  loop : Loop

namespace Worker

/-- A thread that has just been spawned; the idle one has a single loop. -/
def spawned (job : Job) : Worker :=
  ⟨job, match job with | .idle => .inner | .cpu .. => .outer⟩

/-- The thread only waits: it fires no slots, and does not go back to an outer loop. -/
def waits (w : Worker) : Bool :=
  match w.job with
  | .idle => true
  | .cpu _ _ hyperperiodNs _ => hyperperiodNs = 0

/-- The thread leaves its inner loop. -/
def leaves (w : Worker) : Worker := { w with loop := if w.waits then .exited else .outer }

/-- The next step of a thread; `free` says that nobody holds `schedule_mutex_`, which `wake_task`
takes at the end of the body. -/
def step (running tablePending free : Bool) (w : Worker) : Option Worker :=
  match w.loop with
  | .outer => some { w with loop := if running then .outerUp else .exited }
  | .outerUp => some { w with loop := if tablePending then .exited else .inner }
  | .inner => some (if running then { w with loop := .innerUp } else w.leaves)
  | .innerUp => some (if tablePending then w.leaves else { w with loop := .asleep })
  | .asleep => if w.waits || free then some { w with loop := .inner } else none
  | .exited => none

end Worker

/-! ### Calls -/

inductive Request where
  | setScheduleTable (slots : List SlotEntry) (hyperperiodUs epochNs : UInt64)
  | removeWorkload (workloadIdHash : UInt64)
  | start
  | stop
  deriving DecidableEq

/-- The call that holds `schedule_mutex_` has changed the table. -/
inductive Edit where
  | written
  /-- It has set `table_pending_`, and reads `running_` next. -/
  | flagged
  deriving DecidableEq, Repr

/-- Where the call that holds `lifecycle_mutex_` is: a `stop`, or a `start` that begins with one. -/
inductive Phase where
  | stopping (restart : Bool)
  /-- `running_` is cleared; it waits for the threads. -/
  | joining (restart : Bool)
  | stopped
  /-- `running_` is set. -/
  | raised
  /-- `table_pending_` is cleared. -/
  | cleared
  /-- The slots are copied. -/
  | copied (slots : List SlotEntry)
  | spawning (jobs : List Job)
  deriving DecidableEq

end TimerMaster

open TimerMaster (Schedule Job Worker Request Edit)

/-- TimerMaster, its threads, and the calls in progress. -/
structure Lifecycle where
  schedule : Schedule
  running : Bool
  tablePending : Bool
  /-- `cpu_threads_` -/
  workers : List Worker
  /-- The calls that wait for a mutex. -/
  waiting : List Request
  /-- The call that holds `schedule_mutex_`. -/
  editing : Option Edit
  /-- The call that holds `lifecycle_mutex_`. -/
  restarting : Option TimerMaster.Phase

namespace Lifecycle

/-- TimerMaster after its construction. -/
def new : Lifecycle := ⟨⟨[], 0, 0⟩, false, false, [], [], none, none⟩

/-- A call that waits for its mutex gets it. -/
def enter (stdSort : StdSort) (s : Lifecycle) : Request → Option Lifecycle
  | .setScheduleTable slots hyperperiodUs epochNs =>
    if s.editing = none then some { s with
      schedule := ⟨TimerMaster.setScheduleTable stdSort slots, hyperperiodUs * 1000, epochNs⟩
      editing := some .written }
    else none
  | .removeWorkload workloadIdHash =>
    if s.editing = none then
      let slots := TimerMaster.removeWorkload workloadIdHash s.schedule.slotTable
      if slots = s.schedule.slotTable then some s
      else some { s with schedule.slotTable := slots, editing := some .written }
    else none
  | .start => if s.restarting = none then some { s with restarting := some (.stopping true) } else none
  | .stop => if s.restarting = none then some { s with restarting := some (.stopping false) } else none

/-- The next step of the call that holds `schedule_mutex_`: it restarts the threads if they run. -/
def edit (s : Lifecycle) : Edit → Lifecycle
  | .written => { s with tablePending := true, editing := some .flagged }
  | .flagged => { s with
      editing := none
      waiting := if s.running then s.waiting ++ [.start] else s.waiting }

/-- The next step of the call that holds `lifecycle_mutex_`. -/
def restart (s : Lifecycle) : TimerMaster.Phase → Option Lifecycle
  | .stopping again => some { s with running := false, restarting := some (.joining again) }
  | .joining again =>
    if s.workers.all (·.loop = .exited) then
      some { s with workers := [], restarting := if again then some .stopped else none }
    else none
  | .stopped => some { s with running := true, restarting := some .raised }
  | .raised => some { s with tablePending := false, restarting := some .cleared }
  | .cleared =>
    if s.editing = none then some { s with restarting := some (.copied s.schedule.slotTable) }
    else none
  | .copied slots =>
    if slots = [] ∨ s.editing = none then some { s with
      restarting := some (.spawning ({ s.schedule with slotTable := slots } : Schedule).jobs) }
    else none
  | .spawning (job :: jobs) => some { s with
      workers := s.workers ++ [.spawned job], restarting := some (.spawning jobs) }
  | .spawning [] => some { s with restarting := none }

inductive Action where
  | call (r : Request)
  /-- The `i`-th waiting call gets its mutex. -/
  | enter (i : ℕ)
  | edit
  | restart
  /-- The `i`-th thread goes on. -/
  | work (i : ℕ)

/-- Calls and threads in any interleaving. -/
def machine (stdSort : StdSort) : Machine Lifecycle Action where
  init s := s = new
  next s
    | .call r => some { s with waiting := s.waiting ++ [r] }
    | .enter i => s.waiting[i]?.bind fun r =>
        enter stdSort { s with waiting := s.waiting.eraseIdx i } r
    | .edit => s.editing.map s.edit
    | .restart => s.restarting.bind s.restart
    | .work i => s.workers[i]?.bind fun w =>
        (w.step s.running s.tablePending s.editing.isNone).map fun w' =>
          { s with workers := s.workers.set i w' }

/-- All calls have returned. -/
def Idle (s : Lifecycle) : Prop := s.waiting = [] ∧ s.editing = none ∧ s.restarting = none

end Lifecycle

/-! ### The threads of a table -/

namespace TimerMaster

/-- The job serves the CPU. -/
def Job.Serves (cpu : UInt32) : Job → Prop
  | .idle => False
  | .cpu cpu' _ _ _ => cpu' = cpu

namespace Schedule

variable {s : Schedule} {cpu : UInt32}

theorem pairwise_jobs (s : Schedule) :
    s.jobs.Pairwise fun a b => ∀ cpu, ¬ (a.Serves cpu ∧ b.Serves cpu) := by
  unfold jobs
  split_ifs
  · exact List.pairwise_singleton _ _
  · rw [List.pairwise_map]
    refine (nodup_stdSet (s.slotTable.map (·.cpu))).imp ?_
    rintro a b hne cpu ⟨ha, hb⟩
    exact hne (ha.trans hb.symm)

/-- **The threads of a table** are those `TimedDaemon.start` spawns. -/
theorem mem_jobs_iff (stdSort : StdSort) (clock : UInt32 → UInt64) :
    .cpu cpu (s.slotTable.filter fun e => e.cpu = cpu) s.hyperperiodNs s.epochNs ∈ s.jobs ↔
      ∃ th, spawn stdSort s.slotTable s.hyperperiodNs s.epochNs clock cpu = some th := by
  have hspawn : (∃ th, spawn stdSort s.slotTable s.hyperperiodNs s.epochNs clock cpu = some th) ↔
      ∃ e ∈ s.slotTable, e.cpu = cpu := by
    constructor
    · rintro ⟨th, hth⟩
      exact (TimedDaemon.spawn_eq_some hth).1
    · rintro ⟨e, he, hcpu⟩
      have hmem : e ∈ setScheduleTable stdSort (s.slotTable.filter fun e => e.cpu = cpu) := by
        rw [(Daemon.perm_setScheduleTable _).mem_iff, List.mem_filter]
        exact ⟨he, decide_eq_true hcpu⟩
      exact ⟨_, dif_pos (List.length_pos_of_mem hmem)⟩
  rw [hspawn]
  unfold jobs
  split_ifs with hempty
  · simp [hempty]
  · rw [List.mem_map]
    simp only [mem_stdSet, List.mem_map, Job.cpu.injEq]
    constructor
    · rintro ⟨_, ⟨e, he, rfl⟩, hcpu, -⟩
      exact ⟨e, he, hcpu⟩
    · rintro ⟨e, he, rfl⟩
      exact ⟨_, ⟨e, he, rfl⟩, rfl, rfl, trivial, trivial⟩

end Schedule

theorem Worker.exited_of_step {w w' : Worker} {running tablePending free : Bool}
    (h : w.step running tablePending free = some w') (hexited : w'.loop = .exited) :
    running = false ∨ tablePending = true := by
  unfold step at h
  cases running with
  | false => exact Or.inl rfl
  | true =>
    cases tablePending with
    | true => exact Or.inr rfl
    | false =>
      cases hloop : w.loop <;> simp only [hloop] at h
      case asleep =>
        split_ifs at h
        cases h
        cases hexited
      all_goals cases h
      all_goals cases hexited

theorem Worker.job_of_step {w w' : Worker} {running tablePending free : Bool}
    (h : w.step running tablePending free = some w') : w'.job = w.job := by
  unfold step leaves at h
  split at h
  all_goals try split_ifs at h
  all_goals cases h
  all_goals rfl

/-- Steps of a thread while the flags stay and nobody holds `schedule_mutex_`. -/
def Worker.Steps (running tablePending : Bool) : Worker → Worker → Prop :=
  Relation.ReflTransGen fun w w' => w.step running tablePending true = some w'

/-- The thread can exit now that `running_` is cleared. -/
def Worker.Exits (tablePending : Bool) (w : Worker) : Prop :=
  ∃ w', Worker.Steps false tablePending w w' ∧ w'.loop = .exited

theorem Worker.Exits.step {w w' : Worker} {tablePending : Bool} (h : w'.Exits tablePending)
    (hstep : w.step false tablePending true = some w') : w.Exits tablePending := by
  obtain ⟨v, hv, hexited⟩ := h
  exact ⟨v, .head hstep hv, hexited⟩

/-- **A thread exits** when `running_` is cleared, wherever it is. -/
theorem Worker.exits (tablePending : Bool) (w : Worker) : w.Exits tablePending := by
  have hexited : ∀ w : Worker, w.loop = .exited → w.Exits tablePending := fun w hw =>
    ⟨w, .refl, hw⟩
  have houter : ∀ w : Worker, w.loop = .outer → w.Exits tablePending := fun w hw =>
    (hexited { w with loop := .exited } rfl).step (by simp [step, hw])
  have hleaves : ∀ w : Worker, w.leaves.Exits tablePending := by
    intro w
    cases hw : w.waits with
    | true => exact hexited w.leaves (by simp [leaves, hw])
    | false => exact houter w.leaves (by simp [leaves, hw])
  have hinner : ∀ w : Worker, w.loop = .inner → w.Exits tablePending := fun w hw =>
    (hleaves w).step (by simp [step, hw])
  have hasleep : ∀ w : Worker, w.loop = .asleep → w.Exits tablePending := fun w hw =>
    (hinner { w with loop := .inner } rfl).step (by simp [step, hw])
  cases hw : w.loop with
  | outer => exact houter w hw
  | inner => exact hinner w hw
  | asleep => exact hasleep w hw
  | exited => exact hexited w hw
  | outerUp =>
    cases tablePending with
    | true => exact (hexited { w with loop := .exited } rfl).step (by simp [step, hw])
    | false => exact (hinner { w with loop := .inner } rfl).step (by simp [step, hw])
  | innerUp =>
    cases tablePending with
    | true => exact (hleaves w).step (by simp [step, hw])
    | false => exact (hasleep { w with loop := .asleep } rfl).step (by simp [step, hw])

namespace Phase

/-- There are no threads. -/
def Empty : Phase → Prop
  | .stopped | .raised | .cleared | .copied _ => True
  | .stopping _ | .joining _ | .spawning _ => False

/-- `running_` is set. -/
def Up : Phase → Prop
  | .raised | .cleared | .copied _ | .spawning _ => True
  | .stopping _ | .joining _ | .stopped => False

/-- `running_` is cleared. -/
def Down : Phase → Prop
  | .joining _ | .stopped => True
  | .stopping _ | .raised | .cleared | .copied _ | .spawning _ => False

/-- It will clear `table_pending_`. -/
def WillClear : Phase → Prop
  | .stopping again | .joining again => again = true
  | .stopped | .raised => True
  | .cleared | .copied _ | .spawning _ => False

/-- It will copy the table. -/
def WillCopy (p : Phase) : Prop := p.WillClear ∨ p = .cleared

end Phase

end TimerMaster

/-! ### The invariant -/

namespace Lifecycle

open TimerMaster.Phase (Empty Up Down WillClear WillCopy)

/-- The threads that are still to be spawned. -/
def upcoming (s : Lifecycle) : List Job :=
  match s.restarting with
  | some (.copied slots) => ({ s.schedule with slotTable := slots } : Schedule).jobs
  | some (.spawning jobs) => jobs
  | _ => []

/-- The threads there are, and those to be spawned. -/
def planned (s : Lifecycle) : List Job := s.workers.map (·.job) ++ s.upcoming

/-- What holds along every run. -/
structure Inv (s : Lifecycle) : Prop where
  empty : ∀ p, s.restarting = some p → p.Empty → s.workers = []
  up : ∀ p, s.restarting = some p → p.Up → s.running = true
  low : ∀ p, s.restarting = some p → p.Down → s.running = false
  /-- Threads exit only when told to; the flags stay until they are joined. -/
  exited : (∃ w ∈ s.workers, w.loop = .exited) → s.running = false ∨ s.tablePending = true
  /-- Somebody has yet to clear `table_pending_`. -/
  pending : s.running = true → s.tablePending = true →
    s.editing = some .flagged ∨ .start ∈ s.waiting ∨ ∃ p, s.restarting = some p ∧ p.WillClear
  /-- The threads are those of the table, or somebody has yet to restart them. -/
  current : s.running = true → s.planned = s.schedule.jobs ∨
    s.editing ≠ none ∨ .start ∈ s.waiting ∨ ∃ p, s.restarting = some p ∧ p.WillCopy
  down : s.running = false → s.workers = [] ∨ ∃ again, s.restarting = some (.joining again)
  /-- The threads are those of one table. -/
  jobs : s.planned = [] ∨ ∃ t : Schedule, s.planned = t.jobs

variable {stdSort : StdSort} {s s' : Lifecycle}

theorem inv_new : Inv new where
  empty _ h := by cases h
  up _ h := by cases h
  low _ h := by cases h
  exited h := by obtain ⟨w, hw, -⟩ := h; cases hw
  pending h := by cases h
  current h := by cases h
  down _ := Or.inl rfl
  jobs := Or.inl rfl

theorem mem_eraseIdx_of_ne {l : List Request} {i : ℕ} {r r' : Request} (hi : l[i]? = some r)
    (h : r' ∈ l) (hne : r' ≠ r) : r' ∈ l.eraseIdx i := by
  obtain ⟨j, hj⟩ := List.mem_iff_getElem?.1 h
  refine List.mem_eraseIdx_iff_getElem?.2 ⟨j, ?_, hj⟩
  rintro rfl
  exact hne (Option.some.inj (hj.symm.trans hi))

theorem Inv.call (h : Inv s) (r : Request) : Inv { s with waiting := s.waiting ++ [r] } where
  empty := h.empty
  up := h.up
  low := h.low
  exited := h.exited
  pending hr hp := (h.pending hr hp).imp_right (Or.imp_left (List.mem_append_left _))
  current hr := (h.current hr).imp_right (Or.imp_right (Or.imp_left (List.mem_append_left _)))
  down := h.down
  jobs := h.jobs

/-- A waiting call other than a `start` leaves the queue; it may change the table, under the
mutex. -/
theorem Inv.enterSchedule {i : ℕ} {r : Request} (h : Inv s) (hi : s.waiting[i]? = some r)
    (hr : r ≠ .start) {schedule : Schedule} {editing : Option Edit} (hfree : s.editing = none)
    (hedit : editing = some .written ∨ editing = none ∧ schedule = s.schedule) :
    Inv { s with waiting := s.waiting.eraseIdx i, schedule, editing } := by
  have hwait : .start ∈ s.waiting → .start ∈ s.waiting.eraseIdx i :=
    fun hstart => mem_eraseIdx_of_ne hi hstart hr.symm
  have hjobs : planned { s with waiting := s.waiting.eraseIdx i, schedule, editing } = [] ∨
      ∃ t : Schedule, planned { s with waiting := s.waiting.eraseIdx i, schedule, editing } =
        t.jobs := by
    have hworkers := h.jobs
    have hempty := h.empty
    unfold planned upcoming at hworkers ⊢
    dsimp only at hworkers hempty ⊢
    split at hworkers
    · next slots hp =>
      rw [hempty _ hp trivial]
      exact Or.inr ⟨_, rfl⟩
    · exact hworkers
    · exact hworkers
  refine ⟨h.empty, h.up, h.low, h.exited, fun hrun hp => ?_, fun hrun => ?_, h.down, hjobs⟩
  · have hpending := h.pending hrun hp
    rw [hfree] at hpending
    exact Or.inr ((hpending.resolve_left nofun).imp_left hwait)
  · rcases hedit with hwritten | ⟨hnone, hsame⟩
    · exact Or.inr (Or.inl (by rw [hwritten]; nofun))
    · subst hsame
      rcases h.current hrun with hplanned | hedit | hrest
      · exact Or.inl hplanned
      · exact absurd hfree hedit
      · exact Or.inr (Or.inr (hrest.imp_left hwait))

theorem Inv.enterLifecycle {i : ℕ} {r : Request} {again : Bool} (h : Inv s)
    (hi : s.waiting[i]? = some r) (hr : r = .start → again = true) (hfree : s.restarting = none) :
    Inv { s with waiting := s.waiting.eraseIdx i, restarting := some (.stopping again) } := by
  have hwait : .start ∈ s.waiting → .start ∈ s.waiting.eraseIdx i ∨ again = true := by
    intro hstart
    by_cases heq : r = .start
    · exact Or.inr (hr heq)
    · exact Or.inl (mem_eraseIdx_of_ne hi hstart fun h => heq h.symm)
  have hplanned : planned { s with
      waiting := s.waiting.eraseIdx i, restarting := some (.stopping again) } = s.planned := by
    simp only [planned, upcoming, hfree]
  refine ⟨?_, ?_, ?_, h.exited, fun hrun hp => ?_, fun hrun => ?_, fun hrun => ?_, ?_⟩
  · rintro p ⟨⟩ hp
    exact hp.elim
  · rintro p ⟨⟩ hp
    exact hp.elim
  · rintro p ⟨⟩ hp
    exact hp.elim
  · rcases h.pending hrun hp with hedit | hstart | ⟨p, hp, -⟩
    · exact Or.inl hedit
    · rcases hwait hstart with hstart | hagain
      · exact Or.inr (Or.inl hstart)
      · exact Or.inr (Or.inr ⟨_, rfl, hagain⟩)
    · rw [hfree] at hp
      cases hp
  · rw [hplanned]
    rcases h.current hrun with hcur | hedit | hstart | ⟨p, hp, -⟩
    · exact Or.inl hcur
    · exact Or.inr (Or.inl hedit)
    · rcases hwait hstart with hstart | hagain
      · exact Or.inr (Or.inr (Or.inl hstart))
      · exact Or.inr (Or.inr (Or.inr ⟨_, rfl, Or.inl hagain⟩))
    · rw [hfree] at hp
      cases hp
  · rcases h.down hrun with hnone | ⟨b, hb⟩
    · exact Or.inl hnone
    · rw [hfree] at hb
      cases hb
  · rw [hplanned]
    exact h.jobs

theorem Inv.enter {i : ℕ} {r : Request} (h : Inv s) (hi : s.waiting[i]? = some r)
    (hn : enter stdSort { s with waiting := s.waiting.eraseIdx i } r = some s') : Inv s' := by
  cases r with
  | setScheduleTable slots hyperperiodUs epochNs =>
    simp only [Lifecycle.enter] at hn
    split_ifs at hn with hfree
    cases hn
    exact h.enterSchedule hi nofun hfree (Or.inl rfl)
  | removeWorkload hash =>
    simp only [Lifecycle.enter] at hn
    split_ifs at hn with hfree hsame
    · cases hn
      exact @Inv.enterSchedule _ _ _ h hi nofun _ s.editing hfree (Or.inr ⟨hfree, rfl⟩)
    · cases hn
      exact h.enterSchedule hi nofun hfree (Or.inl rfl)
  | start =>
    simp only [Lifecycle.enter] at hn
    split_ifs at hn with hfree
    cases hn
    exact h.enterLifecycle hi (fun _ => rfl) hfree
  | stop =>
    simp only [Lifecycle.enter] at hn
    split_ifs at hn with hfree
    cases hn
    exact h.enterLifecycle hi nofun hfree

theorem Inv.edit {e : Edit} (h : Inv s) (he : s.editing = some e) : Inv (s.edit e) := by
  cases e with
  | written =>
    refine ⟨h.empty, h.up, h.low, fun _ => Or.inr rfl, fun _ _ => Or.inl rfl, fun _ => ?_, h.down,
      h.jobs⟩
    exact Or.inr (Or.inl nofun)
  | flagged =>
    -- it restarts the threads, or they are stopped
    refine ⟨h.empty, h.up, h.low, h.exited, fun hrun hp => ?_, fun hrun => ?_, h.down, h.jobs⟩
    all_goals
      have hwait : .start ∈ (s.edit .flagged).waiting := by
        change s.running = true at hrun
        simp [Lifecycle.edit, hrun]
    · exact Or.inr (Or.inl hwait)
    · exact Or.inr (Or.inr (Or.inl hwait))

theorem Inv.advance {p : TimerMaster.Phase} (hp : s.restarting = some p)
    (hempty : p.Empty → s.workers = []) (hup : p.Up → s.running = true)
    (hlow : p.Down → s.running = false)
    (hexited : (∃ w ∈ s.workers, w.loop = .exited) → s.running = false ∨ s.tablePending = true)
    (hpending : s.running = true → s.tablePending = true →
      s.editing = some .flagged ∨ .start ∈ s.waiting ∨ p.WillClear)
    (hcurrent : s.running = true → s.planned = s.schedule.jobs ∨
      s.editing ≠ none ∨ .start ∈ s.waiting ∨ p.WillCopy)
    (hdown : s.running = false → s.workers = [] ∨ ∃ again, p = .joining again)
    (hjobs : s.planned = [] ∨ ∃ t : Schedule, s.planned = t.jobs) : Inv s where
  empty q hq := by cases hp.symm.trans hq; exact hempty
  up q hq := by cases hp.symm.trans hq; exact hup
  low q hq := by cases hp.symm.trans hq; exact hlow
  exited := hexited
  pending hrun hflag := (hpending hrun hflag).imp_right (Or.imp_right fun h => ⟨p, hp, h⟩)
  current hrun :=
    (hcurrent hrun).imp_right (Or.imp_right (Or.imp_right fun h => ⟨p, hp, h⟩))
  down hrun := (hdown hrun).imp_right fun ⟨again, h⟩ => ⟨again, by rw [hp, h]⟩
  jobs := hjobs

theorem Inv.pending_of_not {p : TimerMaster.Phase} (h : Inv s) (hp : s.restarting = some p)
    (hnot : ¬ p.WillClear) (hrun : s.running = true) (hflag : s.tablePending = true) :
    s.editing = some .flagged ∨ .start ∈ s.waiting := by
  rcases h.pending hrun hflag with hedit | hstart | ⟨q, hq, hclear⟩
  · exact Or.inl hedit
  · exact Or.inr hstart
  · cases hp.symm.trans hq
    exact absurd hclear hnot

theorem Inv.current_of_not {p : TimerMaster.Phase} (h : Inv s) (hp : s.restarting = some p)
    (hnot : ¬ p.WillCopy) (hrun : s.running = true) :
    s.planned = s.schedule.jobs ∨ s.editing ≠ none ∨ .start ∈ s.waiting := by
  rcases h.current hrun with hcur | hedit | hstart | ⟨q, hq, hcopy⟩
  · exact Or.inl hcur
  · exact Or.inr (Or.inl hedit)
  · exact Or.inr (Or.inr hstart)
  · cases hp.symm.trans hq
    exact absurd hcopy hnot

theorem Inv.restart {p : TimerMaster.Phase} (h : Inv s) (hp : s.restarting = some p)
    (hn : s.restart p = some s') : Inv s' := by
  cases p with
  | stopping again =>
    cases hn
    refine .advance rfl nofun nofun (fun _ => rfl) (fun _ => Or.inl rfl) nofun nofun
      (fun _ => Or.inr ⟨_, rfl⟩) ?_
    simpa only [planned, upcoming, hp] using h.jobs
  | joining again =>
    have hlow := h.low _ hp trivial
    simp only [Lifecycle.restart] at hn
    split_ifs at hn with hjoined hagain
    · cases hn
      exact .advance rfl (fun _ => rfl) nofun (fun _ => hlow) nofun
        (fun _ _ => Or.inr (Or.inr trivial)) (fun _ => Or.inr (Or.inr (Or.inr (Or.inl trivial))))
        (fun _ => Or.inl rfl) (Or.inl rfl)
    · cases hn
      refine ⟨nofun, nofun, nofun, nofun, fun hrun => ?_, fun hrun => ?_, fun _ => Or.inl rfl,
        Or.inl rfl⟩
      · exact absurd (hlow.symm.trans hrun) Bool.false_ne_true
      · exact absurd (hlow.symm.trans hrun) Bool.false_ne_true
  | stopped =>
    have hempty := h.empty _ hp trivial
    cases hn
    refine .advance rfl (fun _ => hempty) (fun _ => rfl) nofun ?_
      (fun _ _ => Or.inr (Or.inr trivial)) (fun _ => Or.inr (Or.inr (Or.inr (Or.inl trivial))))
      nofun (Or.inl ?_)
    · simp [hempty]
    · simp [planned, upcoming, hempty]
  | raised =>
    have hempty := h.empty _ hp trivial
    have hup := h.up _ hp trivial
    cases hn
    refine .advance rfl (fun _ => hempty) (fun _ => hup) nofun ?_ nofun
      (fun _ => Or.inr (Or.inr (Or.inr (Or.inr rfl)))) (fun _ => Or.inl hempty) (Or.inl ?_)
    · simp [hempty]
    · simp [planned, upcoming, hempty]
  | cleared =>
    have hempty := h.empty _ hp trivial
    have hup := h.up _ hp trivial
    simp only [Lifecycle.restart] at hn
    split_ifs at hn with hfree
    cases hn
    have hplanned : planned { s with restarting := some (.copied s.schedule.slotTable) } =
        s.schedule.jobs := by
      simp [planned, upcoming, hempty]
    refine .advance rfl (fun _ => hempty) (fun _ => hup) nofun ?_ (fun hrun hflag => ?_)
      (fun _ => Or.inl hplanned) (fun _ => Or.inl hempty) (Or.inr ⟨_, hplanned⟩)
    · simp [hempty]
    · exact (h.pending_of_not hp nofun hrun hflag).imp_right Or.inl
  | copied slots =>
    have hempty := h.empty _ hp trivial
    have hup := h.up _ hp trivial
    simp only [Lifecycle.restart] at hn
    split_ifs at hn
    cases hn
    have hplanned : planned { s with restarting := some (.spawning
        ({ s.schedule with slotTable := slots } : Schedule).jobs) } = s.planned := by
      simp only [planned, upcoming, hp]
    refine .advance rfl nofun (fun _ => hup) nofun ?_ (fun hrun hflag => ?_) (fun hrun => ?_)
      (fun _ => Or.inl hempty) ?_
    · simp [hempty]
    · exact (h.pending_of_not hp nofun hrun hflag).imp_right Or.inl
    · rw [hplanned]
      exact (h.current_of_not hp nofun hrun).imp_right (Or.imp_right Or.inl)
    · rw [hplanned]
      exact h.jobs
  | spawning jobs =>
    have hup := h.up _ hp trivial
    cases jobs with
    | nil =>
      cases hn
      have hplanned : planned { s with restarting := none } = s.planned := by
        simp only [planned, upcoming, hp]
      refine ⟨nofun, nofun, nofun, h.exited, fun hrun hflag => ?_, fun hrun => ?_, fun hrun => ?_, ?_⟩
      · exact (h.pending_of_not hp nofun hrun hflag).imp_right Or.inl
      · rw [hplanned]
        exact (h.current_of_not hp nofun hrun).imp_right (Or.imp_right Or.inl)
      · exact absurd (hup.symm.trans hrun) Bool.true_eq_false.mp
      · rw [hplanned]
        exact h.jobs
    | cons job jobs =>
      cases hn
      have hplanned : planned { s with
          workers := s.workers ++ [.spawned job], restarting := some (.spawning jobs) } =
          s.planned := by
        simp [planned, upcoming, hp, Worker.spawned]
      refine .advance rfl nofun (fun _ => hup) nofun ?_ (fun hrun hflag => ?_) (fun hrun => ?_) ?_ ?_
      · rintro ⟨w, hw, hexited⟩
        rcases List.mem_append.1 hw with hw | hw
        · exact h.exited ⟨w, hw, hexited⟩
        · rw [List.mem_singleton.1 hw] at hexited
          cases job <;> cases hexited
      · exact (h.pending_of_not hp nofun hrun hflag).imp_right Or.inl
      · rw [hplanned]
        exact (h.current_of_not hp nofun hrun).imp_right (Or.imp_right Or.inl)
      · intro hrun
        rw [hup] at hrun
        cases hrun
      · rw [hplanned]
        exact h.jobs

theorem Inv.work {i : ℕ} {w w' : Worker} (h : Inv s) (hi : s.workers[i]? = some w)
    (hw : w.step s.running s.tablePending s.editing.isNone = some w') :
    Inv { s with workers := s.workers.set i w' } := by
  have hjob : (s.workers.set i w').map (·.job) = s.workers.map (·.job) := by
    refine List.ext_getElem? fun j => ?_
    rw [List.getElem?_map, List.getElem?_map]
    by_cases hij : i = j
    · subst hij
      rw [List.getElem?_set_self (List.getElem?_eq_some_iff.1 hi).1, hi, Option.map_some,
        Option.map_some, Worker.job_of_step hw]
    · rw [List.getElem?_set_ne hij]
  have hplanned : planned { s with workers := s.workers.set i w' } = s.planned :=
    congrArg (· ++ s.upcoming) hjob
  have hnil : s.workers ≠ [] := List.ne_nil_of_mem (List.mem_of_getElem? hi)
  refine ⟨fun p hp hempty => absurd (h.empty p hp hempty) hnil, h.up, h.low, ?_, h.pending, ?_,
    fun hrun => Or.inr ((h.down hrun).resolve_left hnil), ?_⟩
  · rintro ⟨v, hv, hexited⟩
    rcases List.mem_or_eq_of_mem_set hv with hv | rfl
    · exact h.exited ⟨v, hv, hexited⟩
    · exact Worker.exited_of_step hw hexited
  · rw [hplanned]
    exact h.current
  · rw [hplanned]
    exact h.jobs

/-- **One action.** -/
theorem Inv.next {a : Action} (h : Inv s) (hn : (machine stdSort).next s a = some s') : Inv s' := by
  cases a with
  | call r =>
    cases hn
    exact h.call r
  | enter i =>
    obtain ⟨r, hr, hn⟩ := Option.bind_eq_some_iff.1 hn
    exact h.enter hr hn
  | edit =>
    obtain ⟨e, he, rfl⟩ := Option.map_eq_some_iff.1 hn
    exact h.edit he
  | restart =>
    obtain ⟨p, hp, hn⟩ := Option.bind_eq_some_iff.1 hn
    exact h.restart hp hn
  | work i =>
    obtain ⟨w, hw, hn⟩ := Option.bind_eq_some_iff.1 hn
    obtain ⟨w', hw', rfl⟩ := Option.map_eq_some_iff.1 hn
    exact h.work hw hw'

theorem inv_of_reachable (h : (machine stdSort).Reachable s) : Inv s := by
  refine h.invariant ?_ fun _ _ _ h _ hn => h.next hn
  rintro _ rfl
  exact inv_new

/-! ### Main results -/

/-- **No table is lost.**  In every state of every interleaving no two threads serve the same CPU.
When all calls have returned, the threads that run are exactly those of the current table, none of
them has exited or been told to, or TimerMaster is stopped and there are no threads. -/
theorem settled_of_reachable (h : (machine stdSort).Reachable s) :
    (s.workers.Pairwise fun a b => ∀ cpu, ¬ (a.job.Serves cpu ∧ b.job.Serves cpu)) ∧
      (s.Idle → if s.running then s.workers.map (·.job) = s.schedule.jobs ∧
          (∀ w ∈ s.workers, w.loop ≠ .exited) ∧ s.tablePending = false
        else s.workers = []) := by
  have hinv := inv_of_reachable h
  constructor
  · have hplanned : s.planned.Pairwise fun a b => ∀ cpu, ¬ (a.Serves cpu ∧ b.Serves cpu) := by
      rcases hinv.jobs with hnil | ⟨t, ht⟩
      · rw [hnil]
        exact .nil
      · rw [ht]
        exact t.pairwise_jobs
    exact List.pairwise_map.1 (List.pairwise_append.1 hplanned).1
  · rintro ⟨hwaiting, hediting, hrestarting⟩
    have hnone : ¬ (Request.start ∈ s.waiting) := by simp [hwaiting]
    have hno : ∀ q : TimerMaster.Phase → Prop, ¬ ∃ p, s.restarting = some p ∧ q p := by
      simp [hrestarting]
    split_ifs with hrun
    · have hflag : s.tablePending = false := by
        refine Bool.eq_false_iff.2 fun hflag => ?_
        rcases hinv.pending hrun hflag with hedit | hstart | hrest
        · cases hediting.symm.trans hedit
        · exact hnone hstart
        · exact hno _ hrest
      refine ⟨?_, fun w hw hexited => ?_, hflag⟩
      · rcases hinv.current hrun with hcur | hedit | hstart | hrest
        · simpa [planned, upcoming, hrestarting] using hcur
        · exact absurd hediting hedit
        · exact absurd hstart hnone
        · exact absurd hrest (hno _)
      · rcases hinv.exited ⟨w, hw, hexited⟩ with hdown | hpending
        · cases hrun.symm.trans hdown
        · cases hflag.symm.trans hpending
    · rcases hinv.down (Bool.eq_false_iff.2 hrun) with hnil | ⟨again, hjoin⟩
      · exact hnil
      · cases hrestarting.symm.trans hjoin

/-- A slot of CPU 2. -/
def oneSlot : TimerMaster.SlotEntry := ⟨2, 0, 250000, 100000, 7, 9, []⟩

/-- Started without a table. -/
def started : List Action := [.call .start, .enter 0] ++ List.replicate 8 .restart

/-- Then a table arrives, and the idle thread exits. -/
def tabled : List Action :=
  started ++ [.call (.setScheduleTable [oneSlot] 1000 0), .enter 0, .edit, .edit, .enter 0, .restart,
    .work 0] ++ List.replicate 7 .restart

/-- The state `tabled` ends in. -/
def onCpuTwo : Lifecycle :=
  ⟨⟨[oneSlot], 1000000, 0⟩, true, false, [⟨.cpu 2 [oneSlot] 1000000 0, .outer⟩], [], none, none⟩

theorem exec_tabled : (machine insertionStdSort).exec new tabled = some onCpuTwo := by rfl

theorem settled_onCpuTwo :
    onCpuTwo.running = true ∧ onCpuTwo.workers.map (·.job) = onCpuTwo.schedule.jobs ∧
      onCpuTwo.tablePending = false := by
  have h := (settled_of_reachable (Machine.reachable_of_exec rfl exec_tabled)).2 ⟨rfl, rfl, rfl⟩
  exact ⟨rfl, h.1, h.2.2⟩

/-! ### Calls return -/

/-- The actions of calls that are in progress and of threads. -/
def Action.Internal (_ : Lifecycle) : Action → Prop
  | .call _ => False
  | .enter _ | .edit | .restart | .work _ => True

/-- The second state can be reached without new calls. -/
def Drains (stdSort : StdSort) : Lifecycle → Lifecycle → Prop :=
  (machine stdSort).Leads Action.Internal

theorem Drains.single {a : Action} (ha : a.Internal s) (h : (machine stdSort).next s a = some s') :
    Drains stdSort s s' :=
  Relation.ReflTransGen.single ⟨a, ha, h⟩

theorem drains_of_steps {i : ℕ} {w w' : Worker} (hfree : s.editing = none)
    (hi : s.workers[i]? = some w) (h : Worker.Steps s.running s.tablePending w w') :
    Drains stdSort s { s with workers := s.workers.set i w' } := by
  have hlt := (List.getElem?_eq_some_iff.1 hi).1
  induction h with
  | refl =>
    have hset : s.workers.set i w = s.workers := by
      obtain ⟨hlt, rfl⟩ := List.getElem?_eq_some_iff.1 hi
      exact List.set_getElem_self hlt
    rw [hset]
    exact .refl
  | @tail w₁ w₂ _ hstep ih =>
    refine ih.tail ⟨.work i, trivial, ?_⟩
    have hget : (s.workers.set i w₁)[i]? = some w₁ := List.getElem?_set_self hlt
    simp only [machine, hget, Option.bind_some, hfree, Option.isNone_none, hstep, Option.map_some,
      List.set_set]

theorem exists_drains_exited (stdSort : StdSort) (hfree : s.editing = none)
    (hdown : s.running = false) :
    ∃ ws : List Worker, (∀ w ∈ ws, w.loop = .exited) ∧
      Drains stdSort s { s with workers := ws } := by
  have hall : ∀ (todo finished : List Worker) (s : Lifecycle), s.editing = none →
      s.running = false → s.workers = finished ++ todo → (∀ w ∈ finished, w.loop = .exited) →
      ∃ ws : List Worker, (∀ w ∈ ws, w.loop = .exited) ∧
        Drains stdSort s { s with workers := ws } := by
    intro todo
    induction todo with
    | nil =>
      intro finished s _ _ hworkers hfinished
      exact ⟨s.workers, by simpa [hworkers] using hfinished, .refl⟩
    | cons w todo ih =>
      intro finished s hfree hdown hworkers hfinished
      have hi : s.workers[finished.length]? = some w := by simp [hworkers]
      obtain ⟨w', hw', hexited⟩ := w.exits s.tablePending
      rw [← hdown] at hw'
      have hdrain : Drains stdSort s { s with workers := s.workers.set finished.length w' } :=
        drains_of_steps hfree hi hw'
      obtain ⟨ws, hws, hrest⟩ := ih (finished ++ [w'])
        { s with workers := s.workers.set finished.length w' } hfree hdown (by simp [hworkers])
        (by simpa [or_imp, forall_and] using ⟨hfinished, hexited⟩)
      exact ⟨ws, hws, hdrain.trans hrest⟩
  exact hall s.workers [] s hfree hdown rfl (by simp)

theorem exists_drains_edited (stdSort : StdSort) (s : Lifecycle) :
    ∃ s', Drains stdSort s s' ∧ s'.editing = none ∧ s'.restarting = s.restarting ∧
      (s'.waiting = s.waiting ∨ s.editing ≠ none ∧ s'.waiting = s.waiting ++ [.start]) := by
  have hflagged : ∀ s : Lifecycle, s.editing = some .flagged →
      ∃ s', Drains stdSort s s' ∧ s'.editing = none ∧ s'.restarting = s.restarting ∧
        (s'.waiting = s.waiting ∨ s'.waiting = s.waiting ++ [.start]) := by
    intro s hs
    refine ⟨s.edit .flagged, .single (a := .edit) trivial (by simp [machine, hs]), rfl, rfl, ?_⟩
    simp only [Lifecycle.edit]
    split_ifs
    · exact Or.inr rfl
    · exact Or.inl rfl
  cases hs : s.editing with
  | none => exact ⟨s, .refl, hs, rfl, Or.inl rfl⟩
  | some e =>
    cases e with
    | flagged =>
      obtain ⟨s', hs', hfree, hsame, hwait⟩ := hflagged s hs
      exact ⟨s', hs', hfree, hsame, hwait.imp_right fun h => ⟨nofun, h⟩⟩
    | written =>
      obtain ⟨s', hs', hfree, hsame, hwait⟩ := hflagged (s.edit .written) rfl
      have hfirst : Drains stdSort s (s.edit .written) :=
        .single (a := .edit) trivial (by simp [machine, hs])
      exact ⟨s', hfirst.trans hs', hfree, hsame, hwait.imp_right fun h => ⟨nofun, h⟩⟩

theorem Drains.restart {p : TimerMaster.Phase} (hp : s.restarting = some p)
    (h : s.restart p = some s') : Drains stdSort s s' :=
  .single (a := .restart) trivial (by simp [machine, hp, h])

/-- The call that holds `lifecycle_mutex_` can leave it. -/
def Finishes (stdSort : StdSort) (s : Lifecycle) : Prop :=
  ∃ s', Drains stdSort s s' ∧ s'.editing = s.editing ∧ s'.restarting = none ∧ s'.waiting = s.waiting

theorem Finishes.of_drains (h : Finishes stdSort s') (hdrain : Drains stdSort s s')
    (hedit : s'.editing = s.editing) (hwait : s'.waiting = s.waiting) : Finishes stdSort s := by
  obtain ⟨t, ht, hedit', hdone, hwait'⟩ := h
  exact ⟨t, hdrain.trans ht, hedit'.trans hedit, hdone, hwait'.trans hwait⟩

theorem finishes_of_spawning (stdSort : StdSort) (jobs : List Job) (s : Lifecycle)
    (hs : s.restarting = some (.spawning jobs)) : Finishes stdSort s := by
  induction jobs generalizing s with
  | nil => exact ⟨{ s with restarting := none }, .restart hs rfl, rfl, rfl, rfl⟩
  | cons job jobs ih =>
    have hrest := ih { s with
      workers := s.workers ++ [.spawned job], restarting := some (.spawning jobs) } rfl
    exact hrest.of_drains (.restart hs rfl) rfl rfl

theorem finishes_of_empty (stdSort : StdSort) {p : TimerMaster.Phase} {s : Lifecycle}
    (hs : s.restarting = some p) (hp : p.Empty) (hfree : s.editing = none) :
    Finishes stdSort s := by
  have hcopied : ∀ (s : Lifecycle) slots, s.restarting = some (.copied slots) → s.editing = none →
      Finishes stdSort s := fun s slots hs hfree =>
    (finishes_of_spawning stdSort _ { s with
      restarting := some (.spawning ({ s.schedule with slotTable := slots } : Schedule).jobs) }
      rfl).of_drains (.restart hs (if_pos (Or.inr hfree))) rfl rfl
  have hcleared : ∀ s : Lifecycle, s.restarting = some .cleared → s.editing = none →
      Finishes stdSort s := fun s hs hfree =>
    (hcopied { s with restarting := some (.copied s.schedule.slotTable) } _ rfl hfree).of_drains
      (.restart hs (if_pos hfree)) rfl rfl
  have hraised : ∀ s : Lifecycle, s.restarting = some .raised → s.editing = none →
      Finishes stdSort s := fun s hs hfree =>
    (hcleared { s with tablePending := false, restarting := some .cleared } rfl hfree).of_drains
      (.restart hs rfl) rfl rfl
  cases p with
  | stopping _ => exact hp.elim
  | joining _ => exact hp.elim
  | spawning _ => exact hp.elim
  | copied slots => exact hcopied s slots hs hfree
  | cleared => exact hcleared s hs hfree
  | raised => exact hraised s hs hfree
  | stopped =>
    exact (hraised { s with running := true, restarting := some .raised } rfl hfree).of_drains
      (.restart hs rfl) rfl rfl

theorem Inv.finishes (stdSort : StdSort) (h : Inv s) (hfree : s.editing = none)
    {p : TimerMaster.Phase} (hs : s.restarting = some p) : Finishes stdSort s := by
  have hjoining : ∀ (s : Lifecycle) again, s.restarting = some (.joining again) →
      s.running = false → s.editing = none → Finishes stdSort s := by
    intro s again hs hdown hfree
    obtain ⟨ws, hexited, hjoin⟩ := exists_drains_exited stdSort hfree hdown
    have hstep : Drains stdSort { s with workers := ws }
        { s with workers := [], restarting := if again then some .stopped else none } :=
      .restart hs (if_pos (by simpa using hexited))
    cases again with
    | false => exact ⟨_, hjoin.trans hstep, rfl, rfl, rfl⟩
    | true =>
      have hrest : Finishes stdSort { s with workers := [], restarting := some .stopped } :=
        finishes_of_empty stdSort rfl trivial hfree
      exact hrest.of_drains (hjoin.trans hstep) rfl rfl
  cases p with
  | joining again => exact hjoining s again hs (h.low _ hs trivial) hfree
  | spawning jobs => exact finishes_of_spawning stdSort jobs s hs
  | stopping again =>
    exact (hjoining { s with running := false, restarting := some (.joining again) } again rfl rfl
      hfree).of_drains (.restart hs rfl) rfl rfl
  | stopped => exact finishes_of_empty stdSort hs trivial hfree
  | raised => exact finishes_of_empty stdSort hs trivial hfree
  | cleared => exact finishes_of_empty stdSort hs trivial hfree
  | copied _ => exact finishes_of_empty stdSort hs trivial hfree

/-- A call is a change of the table, which may end in a `start`. -/
def changes : Request → Bool
  | .setScheduleTable .. | .removeWorkload _ => true
  | .start | .stop => false

/-- How many calls there can still be, those included that changes of the table make. -/
def ahead (s : Lifecycle) : ℕ := s.waiting.length + s.waiting.countP changes

/-- A call can return, such that nobody holds a mutex. -/
def Returns (stdSort : StdSort) (s : Lifecycle) : Prop :=
  ∃ s', Drains stdSort s s' ∧ s'.editing = none ∧ s'.restarting = none ∧ s'.ahead < s.ahead

theorem returns_of_waiting (stdSort : StdSort) (h : Inv s) (hfree : s.editing = none)
    (hdone : s.restarting = none) (hwaiting : s.waiting ≠ []) : Returns stdSort s := by
  obtain ⟨r, rest, hrest⟩ := List.exists_cons_of_ne_nil hwaiting
  have henter : ∀ s₁, enter stdSort { s with waiting := rest } r = some s₁ →
      (machine stdSort).next s (.enter 0) = some s₁ := by
    intro s₁ hs₁
    simpa [machine, hrest] using hs₁
  -- A call on the table leaves the mutex, perhaps for a `start`.
  have hchange : ∀ s₁, enter stdSort { s with waiting := rest } r = some s₁ → changes r = true →
      s₁.waiting = rest → s₁.restarting = none → Returns stdSort s := by
    intro s₁ hs₁ hr hwait₁ hdone₁
    obtain ⟨s₂, hs₂, hfree₂, hdone₂, hwait₂⟩ := exists_drains_edited stdSort s₁
    have hfirst : Drains stdSort s s₁ := .single (a := .enter 0) trivial (henter s₁ hs₁)
    refine ⟨s₂, hfirst.trans hs₂, hfree₂, hdone₂.trans hdone₁, ?_⟩
    have hcount : (r :: rest).countP changes = rest.countP changes + 1 := List.countP_cons_of_pos hr
    unfold ahead
    rw [hrest, hcount, List.length_cons]
    rcases hwait₂ with hwait₂ | ⟨-, hwait₂⟩
    · rw [hwait₂, hwait₁]
      omega
    · have hstart : [Request.start].countP changes = 0 := rfl
      rw [hwait₂, hwait₁, List.countP_append, hstart, List.length_append, List.length_singleton]
      omega
  -- A `start` or a `stop` runs to its end.
  have hcycle : ∀ again, enter stdSort { s with waiting := rest } r =
      some { s with waiting := rest, restarting := some (.stopping again) } → changes r = false →
      Returns stdSort s := by
    intro again hs₁ hr
    obtain ⟨s₂, hs₂, hfree₂, hdone₂, hwait₂⟩ :=
      (h.next (henter _ hs₁)).finishes stdSort hfree rfl
    have hfirst : Drains stdSort s { s with
        waiting := rest, restarting := some (.stopping again) } :=
      .single (a := .enter 0) trivial (henter _ hs₁)
    refine ⟨s₂, hfirst.trans hs₂, hfree₂.trans hfree, hdone₂, ?_⟩
    simp [ahead, hwait₂, hrest, hr]
  cases r with
  | setScheduleTable slots hyperperiodUs epochNs =>
    exact hchange _ (if_pos hfree) rfl rfl hdone
  | removeWorkload workloadIdHash =>
    by_cases hsame :
        TimerMaster.removeWorkload workloadIdHash s.schedule.slotTable = s.schedule.slotTable
    · exact hchange _ ((if_pos hfree).trans (if_pos hsame)) rfl rfl hdone
    · exact hchange _ ((if_pos hfree).trans (if_neg hsame)) rfl rfl hdone
  | start => exact hcycle true (if_pos hdone) rfl
  | stop => exact hcycle false (if_pos hdone) rfl

/-- **Calls return.**  From every state of every interleaving the calls in progress can all return,
without a new call: nobody waits for somebody who waits for them. -/
theorem exists_drains_idle (h : (machine stdSort).Reachable s) :
    ∃ s', Drains stdSort s s' ∧ s'.Idle := by
  have hinv : ∀ {s s' : Lifecycle}, Inv s → Drains stdSort s s' → Inv s' := fun hs hdrain =>
    hdrain.invariant hs fun _ _ _ h _ hnext => h.next hnext
  have hfree : ∀ (n : ℕ) (s : Lifecycle), Inv s → s.editing = none → s.restarting = none →
      s.ahead = n → ∃ s', Drains stdSort s s' ∧ s'.Idle := by
    intro n
    induction n using Nat.strong_induction_on with
    | _ n ih =>
      intro s hs hfree hdone hn
      by_cases hwaiting : s.waiting = []
      · exact ⟨s, .refl, hwaiting, hfree, hdone⟩
      · obtain ⟨s₁, hs₁, hfree₁, hdone₁, hlt⟩ :=
          returns_of_waiting stdSort hs hfree hdone hwaiting
        obtain ⟨s₂, hs₂, hidle⟩ := ih _ (hn ▸ hlt) s₁ (hinv hs hs₁) hfree₁ hdone₁ rfl
        exact ⟨s₂, hs₁.trans hs₂, hidle⟩
  have hs := inv_of_reachable h
  obtain ⟨s₁, hs₁, hfree₁, -⟩ := exists_drains_edited stdSort s
  have hs' := hinv hs hs₁
  cases hrestarting : s₁.restarting with
  | none =>
    obtain ⟨s₂, hs₂, hidle⟩ := hfree _ s₁ hs' hfree₁ hrestarting rfl
    exact ⟨s₂, hs₁.trans hs₂, hidle⟩
  | some p =>
    obtain ⟨s₂, hs₂, hfree₂, hdone₂, -⟩ := hs'.finishes stdSort hfree₁ hrestarting
    obtain ⟨s₃, hs₃, hidle⟩ := hfree _ s₂ (hinv hs' hs₂) (hfree₂.trans hfree₁) hdone₂ rfl
    exact ⟨s₃, (hs₁.trans hs₂).trans hs₃, hidle⟩

/-- The thread of CPU 2 wants to wake its task; one call changes the table under the mutex, and
another has begun to stop the threads. -/
def contended : Lifecycle :=
  { onCpuTwo with
    running := false
    workers := [⟨.cpu 2 [oneSlot] 1000000 0, .asleep⟩]
    schedule := ⟨[], 2000000, 0⟩
    editing := some .written
    restarting := some (.joining false) }

theorem exec_contended : (machine insertionStdSort).exec new (tabled ++
    [.work 0, .work 0, .work 0, .work 0, .call (.setScheduleTable [] 2000 0), .enter 0, .call .stop,
      .enter 0, .restart]) = some contended := by rfl

theorem contended_returns :
    (machine insertionStdSort).next contended .restart = none ∧
      (machine insertionStdSort).next contended (.work 0) = none ∧
      ∃ s', Drains insertionStdSort contended s' ∧ s'.Idle :=
  ⟨rfl, rfl, exists_drains_idle (Machine.reachable_of_exec rfl exec_contended)⟩

end Lifecycle

end Timpani
