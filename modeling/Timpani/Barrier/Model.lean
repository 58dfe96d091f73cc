import Timpani.Cpp.Text
import Timpani.Run.Basic
import Timpani.Tokio.Watch

/-!
# The sync barrier of the Rust orchestrator

`SyncTimer` lets the nodes of a workload start together: every call registers its node under the
stored workload and waits; the call that completes the set of active nodes publishes a start time on
the watch channel of the workload.

The code is a machine whose steps are its critical sections: `AddSchedInfo` replaces the stored
workload, `SyncTimer` registers a call, and a registered call reads the channel, is woken by it, or
runs into its timeout, in any order.  The handler of a timeout takes the lock only after its timer
has fired, so these are two steps.

A `WorkloadState` is identified by its position in the list of all workloads ever stored; the stored
one is the last.  What the scheduler computes for a request is data of the action.

* `exists_move` : everything a step can do to a call;
* `exists_channelStep` : everything a step can do to the channel of a workload;
* `map_content_workloads` : the schedules stay as they were stored.
-/

namespace Timpani

/-! ### State -/

inductive BarrierStatus where
  | waiting
  | released (startTimeSec : Int64) (startTimeNsec : Int32)
  | cancelled
  | timedOut
  deriving DecidableEq, Repr

/-- Node ids with the tasks assigned to them. -/
abbrev NodeSchedMap (τ : Type) := Std.ExtTreeMap Text (List τ)

structure WorkloadState (τ : Type) where
  workloadId : Text
  schedule : NodeSchedMap τ
  activeNodes : Std.ExtTreeSet Text
  syncedNodes : Std.ExtTreeSet Text
  barrierTx : Watch BarrierStatus

/-- The codes of `tonic::Status` that `sync_timer` returns. -/
inductive Code where
  | notFound
  | failedPrecondition
  | aborted
  | deadlineExceeded
  deriving DecidableEq, Repr

structure Status where
  code : Code
  message : Text
  deriving DecidableEq, Repr

structure SyncResponse where
  ack : Bool
  startTimeSec : Int64
  startTimeNsec : Int32
  deriving DecidableEq, Repr

/-- How far a registered call is. -/
inductive SyncPhase where
  /-- At the head of the loop, about to read the status. -/
  | reading
  /-- In the `select!`. -/
  | waiting
  /-- The timer has fired; the store is not locked yet. -/
  | expiring
  | returned (result : Except Status SyncResponse)
  deriving DecidableEq

/-- A `sync_timer` call and the workload it is registered under. -/
structure SyncCall where
  node : Text
  workload : ℕ
  phase : SyncPhase
  deriving DecidableEq

structure Barrier (τ : Type) where
  workloads : List (WorkloadState τ)
  calls : List SyncCall
  /-- The calls that were refused before they were registered. -/
  refused : List (Text × Status)
  /-- The last clock reading, in nanoseconds since the epoch. -/
  clock : ℕ

variable {τ : Type}

namespace WorkloadState

/-- `WorkloadState::new` -/
def new (workloadId : Text) (schedule : NodeSchedMap τ) : WorkloadState τ where
  workloadId := workloadId
  schedule := schedule
  activeNodes := .ofList schedule.keys
  syncedNodes := ∅
  barrierTx := .new .waiting

/-- The status the waiting calls read. -/
def status (ws : WorkloadState τ) : BarrierStatus := ws.barrierTx.value

def onBarrier (f : Watch BarrierStatus → Watch BarrierStatus) (ws : WorkloadState τ) :
    WorkloadState τ :=
  { ws with barrierTx := f ws.barrierTx }

/-- What the workload was stored with. -/
def content (ws : WorkloadState τ) : Text × NodeSchedMap τ := (ws.workloadId, ws.schedule)

def allSynced (ws : WorkloadState τ) : Bool :=
  ws.activeNodes.toList.all fun n => ws.syncedNodes.contains n

end WorkloadState

/-! ### Steps -/

namespace Barrier

/-- `compute_start_time`, one second after the clock reading. -/
def computeStartTime (nowNs : ℕ) : Int64 × Int32 :=
  let startNs := Int64.ofNat nowNs + 1000000000
  (startNs / 1000000000, (startNs % 1000000000).toInt32)

/-- The stored workload and its position. -/
def stored (b : Barrier τ) : Option (ℕ × WorkloadState τ) :=
  b.workloads.getLast?.map fun ws => (b.workloads.length - 1, ws)

/-- Send a status to the stored workload. -/
def sendStored (b : Barrier τ) (status : BarrierStatus) : List (WorkloadState τ) :=
  b.workloads.modify (b.workloads.length - 1) (.onBarrier (·.send status))

/-- `add_sched_info` with what the scheduler made of the request; the reply is its status. -/
def addSchedInfo (b : Barrier τ) (workloadId : Text) (schedule : Option (NodeSchedMap τ)) :
    Barrier τ × Int32 :=
  match schedule with
  | none => (b, -1)
  | some schedule =>
    -- the sender of the replaced workload is dropped with it
    let replaced := (b.sendStored .cancelled).modify (b.workloads.length - 1)
      (.onBarrier .dropSender)
    ({ b with workloads := replaced ++ [.new workloadId schedule] }, 0)

/-- A new call subscribes and its node is noted. -/
def checkIn (ws : WorkloadState τ) (node : Text) (handle : ℕ) : WorkloadState τ :=
  { ws with
    barrierTx := ws.barrierTx.subscribe handle
    syncedNodes := ws.syncedNodes.insert node }

/-- The start time that is published if the set is complete. -/
def releaseAt (now : ℕ) : BarrierStatus :=
  .released (computeStartTime now).1 (computeStartTime now).2

/-- The registration of a call under a workload. -/
def register (ws : WorkloadState τ) (node : Text) (handle now : ℕ) : WorkloadState τ :=
  if (checkIn ws node handle).allSynced then
    (checkIn ws node handle).onBarrier (·.send (releaseAt now))
  else checkIn ws node handle

def refuse (b : Barrier τ) (node : Text) (status : Status) : Barrier τ :=
  { b with refused := b.refused ++ [(node, status)] }

/-- `sync_timer` up to the release of the lock. -/
def syncTimer (b : Barrier τ) (node : Text) (now : ℕ) : Barrier τ :=
  match b.stored with
  | none => b.refuse node ⟨.notFound, text "no workload has been scheduled yet"⟩
  | some (w, ws) =>
    if ws.activeNodes.isEmpty then
      b.refuse node ⟨.failedPrecondition, text "workload has no active nodes"⟩
    else if node ∉ ws.activeNodes then
      b.refuse node ⟨.notFound, text "node '" ++ node ++
        text "' did not receive any tasks in the active workload"⟩
    else
      { b with
        workloads := b.workloads.modify w (register · node b.calls.length now)
        calls := b.calls ++ [⟨node, w, .reading⟩] }

def setPhase (phase : SyncPhase) (c : SyncCall) : SyncCall := { c with phase := phase }

/-- A call returns and drops its receiver. -/
def finish (b : Barrier τ) (i w : ℕ) (result : Except Status SyncResponse) : Barrier τ :=
  { b with
    workloads := b.workloads.modify w (.onBarrier (·.dropReceiver i))
    calls := b.calls.modify i (setPhase (.returned result)) }

/-- The head of the loop: `borrow_and_update` and what follows from the status. -/
def read (b : Barrier τ) (i w : ℕ) (status : BarrierStatus) : Barrier τ :=
  match status with
  | .released sec nsec => b.finish i w (.ok ⟨true, sec, nsec⟩)
  | .cancelled => b.finish i w (.error ⟨.aborted,
      text "workload was replaced while waiting for the sync barrier"⟩)
  | .timedOut => b.finish i w (.error ⟨.deadlineExceeded,
      text "sync barrier timed out waiting for all nodes to check in"⟩)
  | .waiting =>
    { b with
      workloads := b.workloads.modify w (.onBarrier (·.update i))
      calls := b.calls.modify i (setPhase .waiting) }

/-- The `changed()` branch of the `select!`. -/
def wake (b : Barrier τ) (i w : ℕ) (changed : Bool) : Barrier τ :=
  if changed then
    { b with
      workloads := b.workloads.modify w (.onBarrier (·.update i))
      calls := b.calls.modify i (setPhase .reading) }
  else
    b.finish i w (.error ⟨.aborted, text "sync barrier channel closed unexpectedly"⟩)

/-- The rest of the timeout branch: all handlers that wait on the barrier of the stored workload are
woken, whatever workload the call is registered under. -/
def expire (b : Barrier τ) (syncTimeoutSecs i w : ℕ) : Barrier τ :=
  { b with workloads := b.sendStored .timedOut }.finish i w (.error ⟨.deadlineExceeded,
    text "sync barrier timed out after " ++ natText syncTimeoutSecs ++
      text "s — not all nodes checked in"⟩)

inductive Action (τ : Type) where
  | addSchedInfo (workloadId : Text) (schedule : Option (NodeSchedMap τ))
  | syncTimer (node : Text) (now : ℕ)
  | read (i : ℕ)
  | wake (i : ℕ)
  | timeout (i : ℕ)
  | expire (i : ℕ)

/-- The call that an action is a step of. -/
def Action.caller : Action τ → Option ℕ
  | .read i => some i
  | .wake i => some i
  | .timeout i => some i
  | .expire i => some i
  | _ => none

/-- A registered call in a phase, with its workload. -/
def callIn (b : Barrier τ) (phase : SyncPhase) (i : ℕ) : Option (ℕ × WorkloadState τ) :=
  b.calls[i]?.bind fun c =>
    if c.phase = phase then b.workloads[c.workload]?.map fun ws => (c.workload, ws) else none

def next (syncTimeoutSecs : ℕ) (b : Barrier τ) : Action τ → Option (Barrier τ)
  | .addSchedInfo workloadId schedule => some (b.addSchedInfo workloadId schedule).1
  | .syncTimer node now =>
    if b.clock ≤ now then some { b.syncTimer node now with clock := now } else none
  | .read i => (b.callIn .reading i).map fun (w, ws) => b.read i w ws.status
  | .wake i => (b.callIn .waiting i).bind fun (w, ws) => (ws.barrierTx.changed i).map (b.wake i w)
  | .timeout i => (b.callIn .waiting i).map fun _ =>
      { b with calls := b.calls.modify i (setPhase .expiring) }
  | .expire i => (b.callIn .expiring i).map fun (w, _) => b.expire syncTimeoutSecs i w

/-- Nothing is stored and nothing has been called. -/
def machine (τ : Type) (syncTimeoutSecs : ℕ) : Machine (Barrier τ) (Action τ) where
  init b := b.workloads = [] ∧ b.calls = []
  next := next syncTimeoutSecs

/-! ### What a step can do -/

/-- A call of the node completes the set of the stored workload, the one at `w`. -/
def Completes (b : Barrier τ) (node : Text) (w : ℕ) : Prop :=
  ∃ ws, b.stored = some (w, ws) ∧ node ∈ ws.activeNodes ∧
    (checkIn ws node b.calls.length).allSynced = true

/-- How a step moves call `i`, registered under `ws`, from phase to phase. -/
inductive Moves (i : ℕ) (ws : WorkloadState τ) : Action τ → SyncPhase → SyncPhase → Prop
  | wait (h : ws.status = .waiting) : Moves i ws (.read i) .reading .waiting
  | start {sec : Int64} {nsec : Int32} (h : ws.status = .released sec nsec) :
      Moves i ws (.read i) .reading (.returned (.ok ⟨true, sec, nsec⟩))
  | abort (e : Status) (h : ws.status = .cancelled ∨ ws.status = .timedOut) :
      Moves i ws (.read i) .reading (.returned (.error e))
  | wake : Moves i ws (.wake i) .waiting .reading
  | closed (e : Status) (h : ws.barrierTx.changed i = some false) :
      Moves i ws (.wake i) .waiting (.returned (.error e))
  | timeout : Moves i ws (.timeout i) .waiting .expiring
  | expire (e : Status) : Moves i ws (.expire i) .expiring (.returned (.error e))

/-- How a step from `b` to `b'` changes the channel of the workload at `w`. -/
inductive ChannelStep (b b' : Barrier τ) (w : ℕ) :
    Action τ → Watch BarrierStatus → Watch BarrierStatus → Prop
  | keep (a : Action τ) (ch : Watch BarrierStatus) : ChannelStep b b' w a ch ch
  | register (node : Text) (now : ℕ) (ch : Watch BarrierStatus) :
      ChannelStep b b' w (.syncTimer node now) ch (ch.subscribe b.calls.length)
  | release (node : Text) (now : ℕ) (ch : Watch BarrierStatus) (h : b.Completes node w)
      (hcalls : b'.calls = b.calls ++ [⟨node, w, .reading⟩]) :
      ChannelStep b b' w (.syncTimer node now) ch
        ((ch.subscribe b.calls.length).send (releaseAt now))
  | replace (workloadId : Text) (schedule : NodeSchedMap τ) (ch : Watch BarrierStatus)
      (h : w + 1 = b.workloads.length) :
      ChannelStep b b' w (.addSchedInfo workloadId (some schedule)) ch
        (ch.send .cancelled).dropSender
  | readUpdate (i : ℕ) (ch : Watch BarrierStatus) : ChannelStep b b' w (.read i) ch (ch.update i)
  | wakeUpdate (i : ℕ) (ch : Watch BarrierStatus) : ChannelStep b b' w (.wake i) ch (ch.update i)
  | readLeave (i : ℕ) (ch : Watch BarrierStatus) :
      ChannelStep b b' w (.read i) ch (ch.dropReceiver i)
  | wakeLeave (i : ℕ) (ch : Watch BarrierStatus) :
      ChannelStep b b' w (.wake i) ch (ch.dropReceiver i)
  | expireLeave (i : ℕ) (ch : Watch BarrierStatus) :
      ChannelStep b b' w (.expire i) ch (ch.dropReceiver i)
  | expire (i : ℕ) (ch : Watch BarrierStatus) (h : w + 1 = b.workloads.length) :
      ChannelStep b b' w (.expire i) ch (ch.send .timedOut)
  | expireBoth (i : ℕ) (ch : Watch BarrierStatus) (h : w + 1 = b.workloads.length) :
      ChannelStep b b' w (.expire i) ch ((ch.send .timedOut).dropReceiver i)

variable {b b' : Barrier τ} {a : Action τ} {secs i w : ℕ} {c c' : SyncCall}
  {ws ws' : WorkloadState τ}

theorem callIn_eq_some {phase : SyncPhase} :
    b.callIn phase i = some (w, ws) ↔
      ∃ c, b.calls[i]? = some c ∧ c.phase = phase ∧ c.workload = w ∧ b.workloads[w]? = some ws := by
  simp only [callIn, Option.bind_eq_some_iff, Option.ite_none_right_eq_some, Option.map_eq_some_iff,
    Prod.mk.injEq]
  constructor
  · rintro ⟨c, hc, hphase, ws', hws, rfl, rfl⟩
    exact ⟨c, hc, hphase, rfl, hws⟩
  · rintro ⟨c, hc, hphase, rfl, hws⟩
    exact ⟨c, hc, hphase, ws, hws, rfl, rfl⟩

theorem stored_eq_some :
    b.stored = some (w, ws) ↔ w + 1 = b.workloads.length ∧ b.workloads[w]? = some ws := by
  simp only [stored, Option.map_eq_some_iff, Prod.mk.injEq, List.getLast?_eq_getElem?]
  constructor
  · rintro ⟨ws', hws, rfl, rfl⟩
    have := (List.getElem?_eq_some_iff.1 hws).1
    exact ⟨by omega, hws⟩
  · rintro ⟨hw, hws⟩
    obtain rfl : w = b.workloads.length - 1 := by omega
    exact ⟨ws, hws, rfl, rfl⟩

theorem next_cases (h : next secs b a = some b') :
    match a with
    | .addSchedInfo workloadId schedule => b' = (b.addSchedInfo workloadId schedule).1
    | .syncTimer node now => b.clock ≤ now ∧ b' = { b.syncTimer node now with clock := now }
    | .read i => ∃ c ws, b.calls[i]? = some c ∧ c.phase = .reading ∧
        b.workloads[c.workload]? = some ws ∧ b' = b.read i c.workload ws.status
    | .wake i => ∃ c ws changed, b.calls[i]? = some c ∧ c.phase = .waiting ∧
        b.workloads[c.workload]? = some ws ∧ ws.barrierTx.changed i = some changed ∧
        b' = b.wake i c.workload changed
    | .timeout i => ∃ c ws, b.calls[i]? = some c ∧ c.phase = .waiting ∧
        b.workloads[c.workload]? = some ws ∧
        b' = { b with calls := b.calls.modify i (setPhase .expiring) }
    | .expire i => ∃ c ws, b.calls[i]? = some c ∧ c.phase = .expiring ∧
        b.workloads[c.workload]? = some ws ∧ b' = b.expire secs i c.workload := by
  cases a with
  | addSchedInfo workloadId schedule => exact (Option.some_inj.1 h).symm
  | syncTimer node now =>
    obtain ⟨hle, heq⟩ := Option.ite_none_right_eq_some.1 h
    exact ⟨hle, (Option.some_inj.1 heq).symm⟩
  | read i =>
    obtain ⟨⟨w, ws⟩, hcall, heq⟩ := Option.map_eq_some_iff.1 h
    obtain ⟨c, hc, hphase, rfl, hws⟩ := callIn_eq_some.1 hcall
    exact ⟨c, ws, hc, hphase, hws, heq.symm⟩
  | wake i =>
    obtain ⟨⟨w, ws⟩, hcall, hrest⟩ := Option.bind_eq_some_iff.1 h
    obtain ⟨changed, hchanged, heq⟩ := Option.map_eq_some_iff.1 hrest
    obtain ⟨c, hc, hphase, rfl, hws⟩ := callIn_eq_some.1 hcall
    exact ⟨c, ws, changed, hc, hphase, hws, hchanged, heq.symm⟩
  | timeout i =>
    obtain ⟨⟨w, ws⟩, hcall, heq⟩ := Option.map_eq_some_iff.1 h
    obtain ⟨c, hc, hphase, rfl, hws⟩ := callIn_eq_some.1 hcall
    exact ⟨c, ws, hc, hphase, hws, heq.symm⟩
  | expire i =>
    obtain ⟨⟨w, ws⟩, hcall, heq⟩ := Option.map_eq_some_iff.1 h
    obtain ⟨c, hc, hphase, rfl, hws⟩ := callIn_eq_some.1 hcall
    exact ⟨c, ws, hc, hphase, hws, heq.symm⟩

theorem syncTimer_of_mem {node : Text} {now : ℕ} (hstored : b.stored = some (w, ws))
    (hmem : node ∈ ws.activeNodes) :
    b.syncTimer node now =
      { b with
        workloads := b.workloads.modify w (register · node b.calls.length now)
        calls := b.calls ++ [⟨node, w, .reading⟩] } := by
  have hne : ws.activeNodes.isEmpty = false := by
    rw [Std.ExtTreeSet.isEmpty_eq_false_iff]
    rintro hempty
    rw [hempty] at hmem
    exact Std.ExtTreeSet.not_mem_empty hmem
  simp [syncTimer, hstored, hne, hmem]

theorem syncTimer_cases (b : Barrier τ) (node : Text) (now : ℕ) :
    (∃ status, b.syncTimer node now = b.refuse node status) ∨
    ∃ w ws, b.stored = some (w, ws) ∧ node ∈ ws.activeNodes ∧
      b.syncTimer node now =
        { b with
          workloads := b.workloads.modify w (register · node b.calls.length now)
          calls := b.calls ++ [⟨node, w, .reading⟩] } := by
  unfold syncTimer
  split
  · exact Or.inl ⟨_, rfl⟩
  · next w ws hstored =>
    split_ifs with hempty hmem
    · exact Or.inl ⟨_, rfl⟩
    · exact Or.inr ⟨w, ws, hstored, hmem, rfl⟩
    · exact Or.inl ⟨_, rfl⟩

theorem calls_cases (h : next secs b a = some b') :
    (a.caller = none ∧ b'.calls = b.calls) ∨
    (∃ node now w ws, a = .syncTimer node now ∧ b.stored = some (w, ws) ∧ node ∈ ws.activeNodes ∧
      b'.calls = b.calls ++ [⟨node, w, .reading⟩]) ∨
    ∃ i c ws phase, b.calls[i]? = some c ∧ b.workloads[c.workload]? = some ws ∧
      Moves i ws a c.phase phase ∧ b'.calls = b.calls.modify i (setPhase phase) := by
  cases a with
  | addSchedInfo workloadId schedule =>
    obtain rfl : b' = _ := next_cases h
    cases schedule <;> exact Or.inl ⟨rfl, rfl⟩
  | syncTimer node now =>
    obtain ⟨-, rfl⟩ := next_cases h
    rcases syncTimer_cases b node now with ⟨status, heq⟩ | ⟨w, ws, hstored, hmem, heq⟩ <;> rw [heq]
    · exact Or.inl ⟨rfl, rfl⟩
    · exact Or.inr (Or.inl ⟨node, now, w, ws, rfl, hstored, hmem, rfl⟩)
  | read i =>
    obtain ⟨c, ws, hc, hphase, hws, rfl⟩ := next_cases h
    refine Or.inr (Or.inr ⟨i, c, ws, ?_⟩)
    rw [hphase]
    cases hstatus : ws.status with
    | waiting => exact ⟨_, hc, hws, .wait hstatus, rfl⟩
    | released sec nsec => exact ⟨_, hc, hws, .start hstatus, rfl⟩
    | cancelled => exact ⟨_, hc, hws, .abort _ (Or.inl hstatus), rfl⟩
    | timedOut => exact ⟨_, hc, hws, .abort _ (Or.inr hstatus), rfl⟩
  | wake i =>
    obtain ⟨c, ws, changed, hc, hphase, hws, hchanged, rfl⟩ := next_cases h
    refine Or.inr (Or.inr ⟨i, c, ws, ?_⟩)
    rw [hphase]
    cases changed with
    | true => exact ⟨_, hc, hws, .wake, rfl⟩
    | false => exact ⟨_, hc, hws, .closed _ hchanged, rfl⟩
  | timeout i =>
    obtain ⟨c, ws, hc, hphase, hws, rfl⟩ := next_cases h
    refine Or.inr (Or.inr ⟨i, c, ws, _, hc, hws, ?_, rfl⟩)
    rw [hphase]
    exact .timeout
  | expire i =>
    obtain ⟨c, ws, hc, hphase, hws, rfl⟩ := next_cases h
    refine Or.inr (Or.inr ⟨i, c, ws, _, hc, hws, ?_, rfl⟩)
    rw [hphase]
    exact .expire _

theorem Moves.caller_eq {phase phase' : SyncPhase} (h : Moves i ws a phase phase') :
    a.caller = some i := by
  cases h <;> rfl

/-- A call after a step is as it was before, or has moved. -/
theorem exists_move (h : next secs b a = some b') (hc : b.calls[i]? = some c) :
    ∃ c', b'.calls[i]? = some c' ∧ c'.node = c.node ∧ c'.workload = c.workload ∧
      (a.caller ≠ some i ∧ c'.phase = c.phase ∨
        ∃ ws, b.workloads[c.workload]? = some ws ∧ Moves i ws a c.phase c'.phase) := by
  rcases calls_cases h with ⟨hnone, heq⟩ | ⟨node, now, w, ws, rfl, -, -, heq⟩ |
      ⟨j, d, ws, phase, hd, hws, hm, heq⟩
  · exact ⟨c, by rw [heq, hc], rfl, rfl, Or.inl ⟨by simp [hnone], rfl⟩⟩
  · refine ⟨c, ?_, rfl, rfl, Or.inl ⟨by simp [Action.caller], rfl⟩⟩
    rw [heq, List.getElem?_append_left (List.getElem?_eq_some_iff.1 hc).1, hc]
  · rw [heq, List.getElem?_modify, hc]
    by_cases hij : j = i
    · subst hij
      cases hd.symm.trans hc
      exact ⟨setPhase phase c, by simp, rfl, rfl, Or.inr ⟨ws, hws, hm⟩⟩
    · exact ⟨c, by simp [hij], rfl, rfl, Or.inl ⟨by simp [hm.caller_eq, hij], rfl⟩⟩

theorem registered_of_new (h : next secs b a = some b') (hc' : b'.calls[i]? = some c')
    (hnone : b.calls[i]? = none) :
    ∃ node now w ws, a = .syncTimer node now ∧ b.stored = some (w, ws) ∧
      c' = ⟨node, w, .reading⟩ := by
  rcases calls_cases h with ⟨-, heq⟩ | ⟨node, now, w, ws, ha, hs, -, heq⟩ |
      ⟨j, d, ws, phase, -, -, -, heq⟩
  · rw [heq, hnone] at hc'
    cases hc'
  · refine ⟨node, now, w, ws, ha, hs, ?_⟩
    rw [heq, List.getElem?_append_right (List.getElem?_eq_none_iff.1 hnone)] at hc'
    exact (List.mem_singleton.1 (List.mem_of_getElem? hc'))
  · rw [heq, List.getElem?_modify, hnone] at hc'
    cases hc'

theorem getElem?_modify_workload {f : WorkloadState τ → WorkloadState τ} {v : ℕ}
    {l : List (WorkloadState τ)} (hws : l[w]? = some ws) :
    (l.modify v f)[w]? = some (if v = w then f ws else ws) := by
  rw [List.getElem?_modify, hws]
  split_ifs <;> rfl

/-- The channel of a workload after a step; its active nodes stay the same. -/
theorem exists_channelStep (h : next secs b a = some b') (hws : b.workloads[w]? = some ws) :
    ∃ ws', b'.workloads[w]? = some ws' ∧ ws'.activeNodes = ws.activeNodes ∧
      ChannelStep b b' w a ws.barrierTx ws'.barrierTx := by
  have hlt := (List.getElem?_eq_some_iff.1 hws).1
  cases a with
  | addSchedInfo workloadId schedule =>
    obtain rfl : b' = _ := next_cases h
    cases schedule with
    | none => exact ⟨ws, hws, rfl, .keep _ _⟩
    | some schedule =>
      dsimp only [addSchedInfo, sendStored]
      rw [List.getElem?_append_left (by simpa using hlt),
        getElem?_modify_workload (getElem?_modify_workload hws)]
      refine ⟨_, rfl, ?_⟩
      split_ifs with hw
      · exact ⟨rfl, .replace _ _ _ (by omega)⟩
      · exact ⟨rfl, .keep _ _⟩
  | syncTimer node now =>
    obtain ⟨-, rfl⟩ := next_cases h
    rcases syncTimer_cases b node now with ⟨status, heq⟩ | ⟨v, vs, hstored, hmem, heq⟩ <;>
      simp only [heq]
    · exact ⟨ws, hws, rfl, .keep _ _⟩
    · rw [getElem?_modify_workload hws]
      refine ⟨_, rfl, ?_⟩
      split_ifs with hv
      · subst hv
        obtain rfl : vs = ws := Option.some_inj.1 ((stored_eq_some.1 hstored).2.symm.trans hws)
        unfold register
        split_ifs with hall
        · exact ⟨rfl, .release node now _ ⟨vs, hstored, hmem, hall⟩ rfl⟩
        · exact ⟨rfl, .register _ _ _⟩
      · exact ⟨rfl, .keep _ _⟩
  | read i =>
    obtain ⟨c, vs, -, -, -, rfl⟩ := next_cases h
    cases vs.status <;> dsimp only [read, finish] <;> rw [getElem?_modify_workload hws] <;>
      refine ⟨_, rfl, ?_⟩ <;> split_ifs
    · exact ⟨rfl, .readUpdate _ _⟩
    · exact ⟨rfl, .keep _ _⟩
    all_goals first
      | exact ⟨rfl, .readLeave _ _⟩
      | exact ⟨rfl, .keep _ _⟩
  | wake i =>
    obtain ⟨c, vs, changed, -, -, -, -, rfl⟩ := next_cases h
    cases changed <;> dsimp only [wake, finish] <;>
      simp only [Bool.false_eq_true, if_false, if_true] <;> rw [getElem?_modify_workload hws] <;>
      refine ⟨_, rfl, ?_⟩ <;> split_ifs
    · exact ⟨rfl, .wakeLeave _ _⟩
    · exact ⟨rfl, .keep _ _⟩
    · exact ⟨rfl, .wakeUpdate _ _⟩
    · exact ⟨rfl, .keep _ _⟩
  | timeout i =>
    obtain ⟨c, vs, -, -, -, rfl⟩ := next_cases h
    exact ⟨ws, hws, rfl, .keep _ _⟩
  | expire i =>
    obtain ⟨c, vs, -, -, -, rfl⟩ := next_cases h
    dsimp only [expire, finish, sendStored]
    rw [getElem?_modify_workload (getElem?_modify_workload hws)]
    refine ⟨_, rfl, ?_⟩
    split_ifs with hc hw hw
    · exact ⟨rfl, .expireBoth _ _ (by omega)⟩
    · exact ⟨rfl, .expireLeave _ _⟩
    · exact ⟨rfl, .expire _ _ (by omega)⟩
    · exact ⟨rfl, .keep _ _⟩

theorem workloads_cases (h : next secs b a = some b') :
    b'.workloads.length = b.workloads.length ∨
    ∃ workloadId schedule l, a = .addSchedInfo workloadId (some schedule) ∧
      b'.workloads = l ++ [.new workloadId schedule] ∧ l.length = b.workloads.length := by
  cases a with
  | addSchedInfo workloadId schedule =>
    obtain rfl : b' = _ := next_cases h
    cases schedule with
    | none => exact Or.inl rfl
    | some schedule => exact Or.inr ⟨workloadId, schedule, _, rfl, rfl, by simp [sendStored]⟩
  | syncTimer node now =>
    obtain ⟨-, rfl⟩ := next_cases h
    rcases syncTimer_cases b node now with ⟨status, heq⟩ | ⟨v, vs, -, -, heq⟩ <;> simp only [heq]
    · exact Or.inl rfl
    · exact Or.inl (List.length_modify ..)
  | read i =>
    obtain ⟨c, vs, -, -, -, rfl⟩ := next_cases h
    cases vs.status <;> exact Or.inl (List.length_modify ..)
  | wake i =>
    obtain ⟨c, vs, changed, -, -, -, -, rfl⟩ := next_cases h
    cases changed <;> exact Or.inl (List.length_modify ..)
  | timeout i =>
    obtain ⟨c, vs, -, -, -, rfl⟩ := next_cases h
    exact Or.inl rfl
  | expire i =>
    obtain ⟨c, vs, -, -, -, rfl⟩ := next_cases h
    exact Or.inl (by simp [expire, finish, sendStored])

theorem map_modify_of_eq {α β : Type} {g : α → β} {f : α → α} (hf : ∀ a, g (f a) = g a)
    (l : List α) (v : ℕ) : (l.modify v f).map g = l.map g := by
  refine List.ext_getElem? fun i => ?_
  rw [List.getElem?_map, List.getElem?_modify, List.getElem?_map]
  split_ifs
  · cases l[i]? with
    | none => rfl
    | some a => exact congrArg some (hf a)
  · cases l[i]? <;> rfl

theorem map_content_onBarrier (f : Watch BarrierStatus → Watch BarrierStatus)
    (l : List (WorkloadState τ)) (v : ℕ) :
    (l.modify v (.onBarrier f)).map WorkloadState.content = l.map WorkloadState.content := by
  refine map_modify_of_eq (fun ws => ?_) l v
  rfl

/-- Only `add_sched_info` touches what the workloads were stored with. -/
theorem map_content_workloads (h : next secs b a = some b')
    (hadd : ∀ workloadId schedule, a ≠ .addSchedInfo workloadId schedule) :
    b'.workloads.map WorkloadState.content = b.workloads.map WorkloadState.content := by
  cases a with
  | addSchedInfo workloadId schedule => exact absurd rfl (hadd workloadId schedule)
  | syncTimer node now =>
    obtain ⟨-, rfl⟩ := next_cases h
    rcases syncTimer_cases b node now with ⟨status, heq⟩ | ⟨v, vs, -, -, heq⟩ <;> simp only [heq]
    · rfl
    · refine map_modify_of_eq (fun ws => ?_) _ _
      unfold register
      split_ifs <;> rfl
  | read i =>
    obtain ⟨c, vs, -, -, -, rfl⟩ := next_cases h
    cases vs.status <;> exact map_content_onBarrier ..
  | wake i =>
    obtain ⟨c, vs, changed, -, -, -, -, rfl⟩ := next_cases h
    cases changed <;> exact map_content_onBarrier ..
  | timeout i =>
    obtain ⟨c, vs, -, -, -, rfl⟩ := next_cases h
    rfl
  | expire i =>
    obtain ⟨c, vs, -, -, -, rfl⟩ := next_cases h
    exact (map_content_onBarrier ..).trans (map_content_onBarrier ..)

/-- A workload that was not there before has just been stored, and nobody has been released. -/
theorem waiting_of_new (h : next secs b a = some b') (hws' : b'.workloads[w]? = some ws')
    (hnone : b.workloads[w]? = none) : ws'.status = .waiting := by
  have hlength := List.getElem?_eq_none_iff.1 hnone
  have hlt := (List.getElem?_eq_some_iff.1 hws').1
  rcases workloads_cases h with heq | ⟨workloadId, schedule, l, -, heq, hl⟩
  · omega
  · rw [heq, List.getElem?_append_right (by omega)] at hws'
    rw [List.mem_singleton.1 (List.mem_of_getElem? hws')]
    rfl

theorem ChannelStep.value_cases {ch ch' : Watch BarrierStatus} (h : ChannelStep b b' w a ch ch') :
    ch'.value = ch.value ∨
    (∃ node now, a = .syncTimer node now ∧ b.Completes node w ∧
      b'.calls = b.calls ++ [⟨node, w, .reading⟩] ∧ ch'.value = releaseAt now) ∨
    (w + 1 = b.workloads.length ∧
      ((∃ workloadId schedule, a = .addSchedInfo workloadId (some schedule)) ∧
          ch'.value = .cancelled ∨
        (∃ i, a = .expire i) ∧ ch'.value = .timedOut)) := by
  cases h with
  | release node now ch hcompletes hcalls =>
    exact Or.inr (Or.inl ⟨node, now, rfl, hcompletes, hcalls, Watch.value_send_subscribe⟩)
  | replace workloadId schedule ch hw =>
    rcases ch.value_send .cancelled with hv | hv
    · exact Or.inl hv
    · exact Or.inr (Or.inr ⟨hw, Or.inl ⟨⟨workloadId, schedule, rfl⟩, hv⟩⟩)
  | expire i ch hw =>
    rcases ch.value_send .timedOut with hv | hv
    · exact Or.inl hv
    · exact Or.inr (Or.inr ⟨hw, Or.inr ⟨⟨i, rfl⟩, hv⟩⟩)
  | expireBoth i ch hw =>
    rcases ch.value_send .timedOut with hv | hv
    · exact Or.inl hv
    · exact Or.inr (Or.inr ⟨hw, Or.inr ⟨⟨i, rfl⟩, hv⟩⟩)
  | _ => exact Or.inl rfl

theorem ChannelStep.lastSaw {ch ch' : Watch BarrierStatus} {v : BarrierStatus}
    (h : ChannelStep b b' w a ch ch') (hs : ch.LastSaw i v) (hcaller : a.caller ≠ some i)
    (hlt : i < b.calls.length) : ch'.LastSaw i v := by
  have hne : ∀ {j}, a.caller = some j → i ≠ j := by
    rintro j hj rfl
    exact hcaller hj
  cases h with
  | keep => exact hs
  | register => exact hs.subscribe (Nat.ne_of_lt hlt)
  | release => exact (hs.subscribe (Nat.ne_of_lt hlt)).send _
  | replace => exact (hs.send _).dropSender
  | readUpdate j => exact hs.update (hne rfl)
  | wakeUpdate j => exact hs.update (hne rfl)
  | readLeave j => exact hs.dropReceiver (hne rfl)
  | wakeLeave j => exact hs.dropReceiver (hne rfl)
  | expireLeave j => exact hs.dropReceiver (hne rfl)
  | expire j => exact hs.send _
  | expireBoth j => exact (hs.send _).dropReceiver (hne rfl)

end Barrier

end Timpani
