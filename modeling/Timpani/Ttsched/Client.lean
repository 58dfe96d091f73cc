import Timpani.Run.Basic
import Timpani.Ttsched.Slots

/-!
# A client of the shared memory

A TT task calls `ttsched_wait_next_period` to sleep until its slot fires.  The call looks for the
task's slot, remembers its index together with the generation of the table, reads the counter of the
slot and sleeps on it.  `Client.next` is one access of the call to the shared memory; the search for
a name reads it byte by byte.

`releaseMachine` puts a client next to TimerMaster, whose calls hold `schedule_mutex_` and whose
accesses are interleaved with those of the client in every possible way.  Taking the mutex is not
visible to the client, so a call of TimerMaster starts with its first access.

The state keeps one value of the history, `woken`: that `wake_task` has incremented the counter of
the client's task since the client last read it.

* `Client.next` : one access of the client;
* `releaseMachine` : a client and TimerMaster.
-/

namespace Timpani

namespace Ttsched

open TimerMaster (SlotEntry)

/-- A TT task: its hash in TimerMaster's table, and the name of its thread. -/
structure Task where
  hash : UInt64
  name : Text

/-- The buffer `my_name` that `prctl(PR_GET_NAME)` fills. -/
def Task.myName (me : Task) : ℕ → UInt8 := strncpy 15 me.name

/-! ### The client -/

/-- Where `find_task_slot` was called: in `ttsched_init`, called at the start of
`ttsched_wait_next_period`, after it found the magic word gone, or by the application itself; or in
`ttsched_wait_next_period`. -/
inductive Caller where
  | start
  | restart
  | app
  | wait
  deriving DecidableEq, Repr

/-- The next access of `find_task_slot`: in the loop, to byte `k` of the name of slot `i`. -/
inductive FindPc where
  | magic
  | nTasks
  | scan (n : UInt32) (i k : ℕ)
  deriving DecidableEq, Repr

/-- The next access of the client. -/
inductive Pc where
  /-- Not in a call; `some true` if the last one has returned 0. -/
  | outside (result : Option Bool)
  | openShm (who : Caller)
  | find (who : Caller) (pc : FindPc)
  | initGeneration (who : Caller)
  | checkMagic
  | recheckMagic
  | checkGeneration
  | reloadGeneration
  | readCounter
  | futexWait (current : UInt32)
  /-- Asleep in `FUTEX_WAIT`. -/
  | blocked (current : UInt32)
  | checkShutdown
  deriving DecidableEq, Repr

/-- The variables of the library in a thread: `g_shm` is mapped or not, `g_task_idx`,
`g_shm_generation`. -/
structure Client where
  mapped : Bool
  taskIdx : Option (Fin maxTasks)
  shmGeneration : UInt32
  pc : Pc
  deriving DecidableEq, Repr

/-- How `shm_open` and `mmap` end. -/
inductive OpenResult where
  | mapped
  | openFailed
  | mapFailed
  deriving DecidableEq, Repr

namespace Client

/-- A thread that has not used the library. -/
def new : Client := ⟨false, none, 0, .outside none⟩

/-- `ttsched_init` returns. -/
def initDone (who : Caller) (c : Client) : Client :=
  match who with
  | .start => { c with pc := if c.mapped then .checkMagic else .outside (some false) }
  | .restart => { c with pc := if c.mapped then .recheckMagic else .outside (some false) }
  | .app | .wait => { c with pc := .outside none }

/-- `find_task_slot` returns. -/
def findDone (who : Caller) (c : Client) (idx : Option (Fin maxTasks)) : Client :=
  match who with
  | .wait =>
    { c with taskIdx := idx, pc := if idx.isSome then .readCounter else .outside (some false) }
  | who => { c with taskIdx := idx, pc := .initGeneration who }

/-- The loop of `find_task_slot`. -/
def scan (me : Task) (shm : Shm) (who : Caller) (c : Client) (n : UInt32) (i k : ℕ) : Client :=
  if h : i < maxTasks ∧ i < n.toNat then
    let b := (shm.tasks ⟨i, h.1⟩).name k
    if b ≠ me.myName k then { c with pc := .find who (.scan n (i + 1) 0) }
    else if b = 0 ∨ k + 1 = 15 then c.findDone who (some ⟨i, h.1⟩)
    else { c with pc := .find who (.scan n i (k + 1)) }
  else c.findDone who none

/-- The next access of the client, if it is in a call and not asleep. -/
def next (me : Task) (shm : Shm) (result : OpenResult) (c : Client) : Option Client :=
  match c.pc with
  | .outside _ | .blocked _ => none
  | .openShm who =>
    match result with
    | .mapped => some { c with mapped := true, pc := .find who .magic }
    | .openFailed => some (c.initDone who)
    | .mapFailed => some ({ c with mapped := false }.initDone who)
  | .find who .magic =>
    if shm.magic ≠ magicWord then some (c.findDone who none)
    else some { c with pc := .find who .nTasks }
  | .find who .nTasks => some { c with pc := .find who (.scan shm.nTasks 0 0) }
  | .find who (.scan n i k) => some (c.scan me shm who n i k)
  | .initGeneration who => some ({ c with shmGeneration := shm.generation }.initDone who)
  | .checkMagic =>
    if shm.magic ≠ magicWord then
      some { c with mapped := false, taskIdx := none, pc := .openShm .restart }
    else some { c with pc := .checkGeneration }
  | .recheckMagic =>
    if shm.magic ≠ magicWord then some { c with pc := .outside (some false) }
    else some { c with pc := .checkGeneration }
  | .checkGeneration =>
    if shm.generation ≠ c.shmGeneration then some { c with pc := .reloadGeneration }
    else some { c with pc := if c.taskIdx.isSome then .readCounter else .find .wait .magic }
  | .reloadGeneration =>
    some { c with shmGeneration := shm.generation, taskIdx := none, pc := .find .wait .magic }
  | .readCounter => c.taskIdx.map fun i => { c with pc := .futexWait (shm.tasks i).counter }
  | .futexWait current => c.taskIdx.map fun i =>
    -- with another value in the counter the call ends with `EAGAIN`
    { c with pc := if (shm.tasks i).counter ≠ current then .checkShutdown else .blocked current }
  | .checkShutdown =>
    if shm.magic ≠ magicWord then
      some { c with mapped := false, taskIdx := none, pc := .outside (some false) }
    else some { c with pc := .outside (some true) }

/-- `FUTEX_WAKE` on the counter of a slot. -/
def wake (i : Fin maxTasks) (c : Client) : Client :=
  match c.pc with
  | .blocked _ => if c.taskIdx = some i then { c with pc := .checkShutdown } else c
  | _ => c

/-- What an access of TimerMaster does to the client: only `FUTEX_WAKE` reaches it. -/
def observe (step : ShmStep) (c : Client) : Client :=
  match step with
  | .futexWake i _ => c.wake i
  | _ => c

/-- A signal interrupts `FUTEX_WAIT`, which is called again. -/
def interrupt (c : Client) : Option Client :=
  match c.pc with
  | .blocked current => some { c with pc := .futexWait current }
  | _ => none

/-- Enter a call. -/
def enter (pc : Pc) (c : Client) : Option Client :=
  match c.pc with
  | .outside _ => some { c with pc := pc }
  | _ => none

end Client

/-! ### The client and TimerMaster -/

/-- What TimerMaster is doing: nothing, a `set_schedule_table` with the accesses that are left of it
and the map it will leave, or a `wake_task` that has incremented a counter and not woken anybody. -/
inductive TimerCall where
  | free
  | publishing (rest : List ShmStep) (mapping : ShmMapping)
  | waking (idx : Fin maxTasks)

namespace TimerCall

/-- `schedule_mutex_` is free. -/
def isFree : TimerCall → Bool
  | free => true
  | _ => false

/-- The next access of the call. -/
def nextStep : TimerCall → Option ShmStep
  | free => none
  | publishing rest _ => rest.head?
  | waking idx => some (.futexWake idx 1)

end TimerCall

/-- The client, TimerMaster and the memory between them. -/
structure ReleaseState where
  shm : Shm
  taskHashToShmIdx : ShmMapping
  timer : TimerCall
  client : Client
  woken : Bool

/-- The steps of a run. -/
inductive ReleaseAction where
  /-- The client calls `ttsched_init`. -/
  | callInit
  /-- The client calls `ttsched_wait_next_period`. -/
  | callWait
  | client (result : OpenResult)
  | signal
  | setScheduleTable (slots : List SlotEntry)
  | wakeTask (hash : UInt64)
  /-- The next access of TimerMaster's call. -/
  | timer

namespace ReleaseState

/-- `set_schedule_table` starts with clearing the magic word. -/
def setScheduleTable (stdSort : StdSort) (slots : List SlotEntry) (s : ReleaseState) :
    ReleaseState :=
  let slotTable := TimerMaster.setScheduleTable stdSort slots
  { s with
    shm := (ShmStep.setMagic 0).apply s.shm
    timer := .publishing (publication s.taskHashToShmIdx slotTable).tail
      (allocate s.taskHashToShmIdx slotTable).taskHashToShmIdx }

/-- `wake_task` starts with the increment, if the task has a slot. -/
def wakeTask (me : Task) (hash : UInt64) (s : ReleaseState) : ReleaseState :=
  match s.taskHashToShmIdx[hash]? with
  | some idx =>
    { s with
      shm := (ShmStep.addCounter idx).apply s.shm
      timer := .waking idx
      woken := s.woken || hash == me.hash }
  | none => s

/-- The next access of TimerMaster's call. -/
def timerStep (s : ReleaseState) : Option ReleaseState :=
  match s.timer with
  | .free | .publishing [] _ => none
  | .publishing [step] mapping =>
    some { s with
      shm := step.apply s.shm
      client := s.client.observe step
      timer := .free
      taskHashToShmIdx := mapping }
  | .publishing (step :: rest) mapping =>
    some { s with
      shm := step.apply s.shm
      client := s.client.observe step
      timer := .publishing rest mapping }
  | .waking idx => some { s with client := s.client.wake idx, timer := .free }

/-- The next access of the client; the read of the counter starts a new wait. -/
def clientStep (me : Task) (result : OpenResult) (s : ReleaseState) : Option ReleaseState :=
  (s.client.next me s.shm result).map fun c =>
    { s with client := c, woken := if s.client.pc = .readCounter then false else s.woken }

/-- What an action does. -/
def next (stdSort : StdSort) (me : Task) (s : ReleaseState) :
    ReleaseAction → Option ReleaseState
  | .callInit => (s.client.enter (.openShm .app)).map fun c => { s with client := c }
  | .callWait =>
    (s.client.enter (if s.client.mapped then .checkMagic else .openShm .start)).map fun c =>
      { s with client := c }
  | .client result => s.clientStep me result
  | .signal => s.client.interrupt.map fun c => { s with client := c }
  | .setScheduleTable slots =>
    if s.timer.isFree then some (s.setScheduleTable stdSort slots) else none
  | .wakeTask hash => if s.timer.isFree then some (s.wakeTask me hash) else none
  | .timer => s.timerStep

end ReleaseState

/-- A client and TimerMaster, from the constructor of TimerMaster on. -/
def releaseMachine (stdSort : StdSort) (me : Task) : Machine ReleaseState ReleaseAction where
  init s := ∃ shm, s = ⟨(Publisher.new shm).shm, ∅, .free, .new, false⟩
  next := ReleaseState.next stdSort me

end Ttsched

end Timpani
