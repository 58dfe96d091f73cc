import Timpani.Cpp.Text
import Timpani.Run.Basic
import Mathlib.Data.List.Nodup
import Mathlib.Data.List.Range

/-!
# The fault client

Timpani-O forwards faults to Pullpiri by RPC.  A fault that cannot be sent is queued, and the queue
is flushed before the next one is sent; when it is full, the oldest fault is dropped.  The new fault
is sent even if the flush has failed.

* `FaultServiceClient.notifyFault` : one call, with the outcomes of its RPCs;
* `FaultLog.machine` : sequences of calls, with the history of the faults;
* `FaultLog.accounted_of_reachable` : no fault is lost silently;
* `FaultLog.delivered_sublist_submitted` : faults arrive in order, if the RPC for a new fault never
  succeeds after a failed flush; `FaultLog.delivered_out_of_order` is a run in which one does.
-/

namespace Timpani

/-! ### Faults and RPCs -/

/-- `schedinfo::v1::FaultType`; protobuf enums are open. -/
inductive SchedFaultType where
  | unknown
  | dmiss
  | other (value : Int32)
  deriving DecidableEq, Repr

/-- `schedinfo::v1::FaultInfo` -/
structure FaultInfo where
  workloadId : Text
  nodeId : Text
  taskName : Text
  type : SchedFaultType
  cumulativeDmiss : UInt32
  deriving DecidableEq, Repr

/-- How an RPC ends: the gRPC status, and the status in the reply. -/
structure RpcOutcome where
  statusOk : Bool
  replyStatus : Int32
  deriving DecidableEq, Repr

/-- `SendFaultRpc` -/
def sendFaultRpc (outcome : RpcOutcome) : Bool :=
  if outcome.statusOk then outcome.replyStatus = 0 else false

/-! ### The client -/

/-- `FaultServiceClient`; it looks at no field of the faults. -/
structure FaultServiceClient (F : Type) where
  initialized : Bool
  retryQueue : List F

namespace FaultServiceClient

variable {F : Type}

def maxRetryQueue : ℕ := 1024

def new : FaultServiceClient F := ⟨false, []⟩

/-- `Initialize`; `channelCreated` is the result of `CreateChannel`. -/
def initializeClient (c : FaultServiceClient F) (serverAddress : Text) (channelCreated : Bool) :
    FaultServiceClient F × Bool :=
  if c.initialized then (c, true)
  else if serverAddress = [] then (c, false)
  else if channelCreated then ({ c with initialized := true }, true)
  else (c, false)

/-- What a flush delivers and leaves, and the number of the next RPC. -/
structure Flushed (F : Type) where
  delivered : List F
  queue : List F
  rpcs : ℕ

/-- `FlushRetryQueueLocked`; `rpc` gives the outcomes of the RPCs of a call, by number. -/
def flushRetryQueueLocked (rpc : ℕ → RpcOutcome) : ℕ → List F → Flushed F
  | k, [] => ⟨[], [], k⟩
  | k, pending :: queue =>
    if sendFaultRpc (rpc k) then
      let rest := flushRetryQueueLocked rpc (k + 1) queue
      { rest with delivered := pending :: rest.delivered }
    else ⟨[], pending :: queue, k + 1⟩

/-- `EnqueueRetryLocked`: the queue, and what is dropped. -/
def enqueueRetryLocked (queue : List F) (request : F) : List F × List F :=
  if queue.length ≥ maxRetryQueue then (queue.tail ++ [request], queue.head?.toList)
  else (queue ++ [request], [])

/-- A call of `NotifyFault`: the client after it, what it has delivered and dropped, and its
result. -/
structure Notified (F : Type) where
  client : FaultServiceClient F
  delivered : List F
  dropped : List F
  result : Bool

/-- `NotifyFault` -/
def notifyFault (c : FaultServiceClient F) (rpc : ℕ → RpcOutcome) (request : F) : Notified F :=
  if c.initialized = false then ⟨c, [], [], false⟩
  else
    let flushed := flushRetryQueueLocked rpc 0 c.retryQueue
    if sendFaultRpc (rpc flushed.rpcs) then
      ⟨{ c with retryQueue := flushed.queue }, flushed.delivered ++ [request], [], true⟩
    else
      let (queue, dropped) := enqueueRetryLocked flushed.queue request
      ⟨{ c with retryQueue := queue }, flushed.delivered, dropped, false⟩

/-! ### One call -/

variable {rpc : ℕ → RpcOutcome} {c : FaultServiceClient F} {request : F}

theorem flushRetryQueueLocked_eq (rpc : ℕ → RpcOutcome) (k : ℕ) (queue : List F) :
    ∃ j ≤ queue.length, (∀ i < j, sendFaultRpc (rpc (k + i)) = true) ∧
      (flushRetryQueueLocked rpc k queue).delivered = queue.take j ∧
      (flushRetryQueueLocked rpc k queue).queue = queue.drop j ∧
      (j < queue.length → sendFaultRpc (rpc (k + j)) = false) ∧
      (flushRetryQueueLocked rpc k queue).rpcs = k + min (j + 1) queue.length := by
  induction queue generalizing k with
  | nil => exact ⟨0, le_rfl, fun i hi => absurd hi (Nat.not_lt_zero i), rfl, rfl, nofun, rfl⟩
  | cons pending queue ih =>
    rw [flushRetryQueueLocked]
    split_ifs with hsent
    · obtain ⟨j, hj, hbefore, hdelivered, hqueue, hfailed, hrpcs⟩ := ih (k + 1)
      have hadd : ∀ i, k + 1 + i = k + (i + 1) := fun i => by omega
      refine ⟨j + 1, Nat.succ_le_succ hj, fun i hi => ?_, ?_, hqueue, fun hlt => ?_, ?_⟩
      · cases i with
        | zero => exact hsent
        | succ i => exact hadd i ▸ hbefore i (Nat.lt_of_succ_lt_succ hi)
      · rw [List.take_succ_cons, ← hdelivered]
      · exact hadd j ▸ hfailed (Nat.lt_of_succ_lt_succ hlt)
      · show (flushRetryQueueLocked rpc (k + 1) queue).rpcs = _
        rw [hrpcs, List.length_cons, Nat.add_min_add_right, hadd]
    · refine ⟨0, Nat.zero_le _, fun i hi => absurd hi (Nat.not_lt_zero i), rfl, rfl,
        fun _ => Bool.eq_false_iff.2 hsent, ?_⟩
      simp

/-- **One call** of an initialised client: part of the queue is delivered, and then the new fault is
delivered or queued, the latter at the expense of the oldest if the queue is full. -/
theorem notifyFault_cases (hc : c.initialized = true) (rpc : ℕ → RpcOutcome) (request : F) :
    ∃ j ≤ c.retryQueue.length, (∀ i < j, sendFaultRpc (rpc i) = true) ∧
      (c.notifyFault rpc request).client.initialized = true ∧
      (((c.notifyFault rpc request).delivered = c.retryQueue.take j ++ [request] ∧
          (c.notifyFault rpc request).client.retryQueue = c.retryQueue.drop j ∧
          (c.notifyFault rpc request).dropped = [] ∧ (c.notifyFault rpc request).result = true ∧
          (j < c.retryQueue.length → sendFaultRpc (rpc j) = false ∧
            sendFaultRpc (rpc (j + 1)) = true)) ∨
        ((c.notifyFault rpc request).delivered = c.retryQueue.take j ∧
          (c.notifyFault rpc request).result = false ∧
          (((c.retryQueue.drop j).length < maxRetryQueue ∧
              (c.notifyFault rpc request).client.retryQueue = c.retryQueue.drop j ++ [request] ∧
              (c.notifyFault rpc request).dropped = []) ∨
            (maxRetryQueue ≤ (c.retryQueue.drop j).length ∧
              ∃ oldest rest, c.retryQueue.drop j = oldest :: rest ∧
                (c.notifyFault rpc request).client.retryQueue = rest ++ [request] ∧
                (c.notifyFault rpc request).dropped = [oldest])))) := by
  obtain ⟨j, hj, hbefore, hdelivered, hqueue, hfailed, hrpcs⟩ :=
    flushRetryQueueLocked_eq rpc 0 c.retryQueue
  simp only [Nat.zero_add] at hbefore hfailed hrpcs
  refine ⟨j, hj, hbefore, ?_⟩
  unfold notifyFault
  rw [if_neg (by simp [hc])]
  dsimp only
  rw [hdelivered, hqueue]
  split_ifs with hsent
  · refine ⟨hc, Or.inl ⟨rfl, rfl, rfl, rfl, fun hlt => ?_⟩⟩
    have hnext : (flushRetryQueueLocked rpc 0 c.retryQueue).rpcs = j + 1 :=
      hrpcs.trans (min_eq_left hlt)
    exact ⟨hfailed hlt, hnext ▸ hsent⟩
  · refine ⟨hc, Or.inr ⟨rfl, rfl, ?_⟩⟩
    unfold enqueueRetryLocked
    split_ifs with hfull
    · refine Or.inr ⟨hfull, ?_⟩
      cases hdrop : c.retryQueue.drop j with
      | nil => simp [hdrop, maxRetryQueue] at hfull
      | cons oldest rest => exact ⟨oldest, rest, rfl, rfl, rfl⟩
    · exact Or.inl ⟨Nat.lt_of_not_le hfull, rfl, rfl⟩

/-- What a call delivers, by its RPCs: the queue up to the first that fails, and the new fault if the
next one succeeds. -/
theorem delivered_notifyFault (hc : c.initialized = true) (rpc : ℕ → RpcOutcome) (request : F) :
    ∃ j ≤ c.retryQueue.length, (∀ i < j, sendFaultRpc (rpc i) = true) ∧
      (j < c.retryQueue.length → sendFaultRpc (rpc j) = false) ∧
      (c.notifyFault rpc request).result =
        sendFaultRpc (rpc (min (j + 1) c.retryQueue.length)) ∧
      (c.notifyFault rpc request).delivered = c.retryQueue.take j ++
        if (c.notifyFault rpc request).result then [request] else [] := by
  obtain ⟨j, hj, hbefore, hdelivered, -, hfailed, hrpcs⟩ :=
    flushRetryQueueLocked_eq rpc 0 c.retryQueue
  simp only [Nat.zero_add] at hbefore hfailed hrpcs
  have hcall : (c.notifyFault rpc request).result =
        sendFaultRpc (rpc (flushRetryQueueLocked rpc 0 c.retryQueue).rpcs) ∧
      (c.notifyFault rpc request).delivered = (flushRetryQueueLocked rpc 0 c.retryQueue).delivered ++
        if sendFaultRpc (rpc (flushRetryQueueLocked rpc 0 c.retryQueue).rpcs) then [request]
        else [] := by
    unfold notifyFault
    cases hsent : sendFaultRpc (rpc (flushRetryQueueLocked rpc 0 c.retryQueue).rpcs) <;>
      simp [hc, hsent]
  rw [hrpcs, hdelivered] at hcall
  refine ⟨j, hj, hbefore, hfailed, hcall.1, ?_⟩
  rw [hcall.2, hcall.1]

end FaultServiceClient

/-! ### Sequences of calls -/

/-- A client with the history of its faults.  A fault is known by the number of the call that has
submitted it: two calls may submit the same data. -/
structure FaultLog where
  client : FaultServiceClient (ℕ × FaultInfo)
  submitted : List (ℕ × FaultInfo)
  /-- The faults whose RPC has succeeded, in this order. -/
  delivered : List (ℕ × FaultInfo)
  dropped : List (ℕ × FaultInfo)

namespace FaultLog

/-- The fault of the next call. -/
def fault (w : FaultLog) (info : FaultInfo) : ℕ × FaultInfo := (w.submitted.length, info)

/-- A call of `NotifyFault`, and its result. -/
def notifyFault (w : FaultLog) (rpc : ℕ → RpcOutcome) (info : FaultInfo) : FaultLog × Bool :=
  let called := w.client.notifyFault rpc (w.fault info)
  (⟨called.client, w.submitted ++ [w.fault info], w.delivered ++ called.delivered,
    w.dropped ++ called.dropped⟩, called.result)

/-- The calls on a client whose initialisation has succeeded.  An action is a fault and the outcomes
of the RPCs of the call. -/
def machine : Machine FaultLog ((ℕ → RpcOutcome) × FaultInfo) where
  init w := ∃ serverAddress channelCreated,
    FaultServiceClient.new.initializeClient serverAddress channelCreated = (w.client, true) ∧
      w.submitted = [] ∧ w.delivered = [] ∧ w.dropped = []
  next w call := some (w.notifyFault call.1 call.2).1

open FaultServiceClient (maxRetryQueue)

/-- The invariant: where the faults are. -/
structure Inv (w : FaultLog) : Prop where
  initialized : w.client.initialized = true
  numbered : w.submitted.map Prod.fst = List.range w.submitted.length
  accounted : w.submitted.Perm (w.delivered ++ w.client.retryQueue ++ w.dropped)
  ordered : w.client.retryQueue.Sublist w.submitted
  bounded : w.client.retryQueue.length ≤ maxRetryQueue

variable {w : FaultLog} {rpc : ℕ → RpcOutcome} {info : FaultInfo}

theorem client_of_init (h : machine.init w) :
    w.client = ⟨true, []⟩ ∧ w.submitted = [] ∧ w.delivered = [] ∧ w.dropped = [] := by
  obtain ⟨serverAddress, channelCreated, hinit, hhistory⟩ := h
  refine ⟨?_, hhistory⟩
  simp only [FaultServiceClient.initializeClient, FaultServiceClient.new] at hinit
  split_ifs at hinit
  all_goals simp_all

theorem inv_of_init (h : machine.init w) : w.Inv := by
  obtain ⟨hclient, hsubmitted, hdelivered, hdropped⟩ := client_of_init h
  constructor <;> simp [hclient, hsubmitted, hdelivered, hdropped]

theorem Inv.nodup (h : w.Inv) : w.submitted.Nodup :=
  List.Nodup.of_map Prod.fst (h.numbered ▸ List.nodup_range)

theorem Inv.fault_notMem (h : w.Inv) (info : FaultInfo) : w.fault info ∉ w.submitted := by
  intro hmem
  have hrange := List.mem_map_of_mem (f := Prod.fst) hmem
  rw [h.numbered, List.mem_range] at hrange
  exact absurd hrange (lt_irrefl _)

theorem Inv.sublist_append (h : w.Inv) {kept : List (ℕ × FaultInfo)}
    (hkept : kept.Sublist w.client.retryQueue) (f : ℕ × FaultInfo) :
    (kept ++ [f]).Sublist (w.submitted ++ [f]) :=
  (hkept.trans h.ordered).append (List.Sublist.refl [f])

theorem Inv.perm_notifyFault (h : w.Inv) (rpc : ℕ → RpcOutcome) (info : FaultInfo) :
    (w.notifyFault rpc info).1.submitted.Perm ((w.notifyFault rpc info).1.delivered ++
      (w.notifyFault rpc info).1.client.retryQueue ++ (w.notifyFault rpc info).1.dropped) := by
  obtain ⟨j, -, -, -, hcases⟩ :=
    FaultServiceClient.notifyFault_cases h.initialized rpc (w.fault info)
  rw [List.perm_iff_count]
  intro f
  have hcount := List.perm_iff_count.1 h.accounted f
  have hqueue := congrArg (List.count f) (List.take_append_drop j w.client.retryQueue)
  simp only [List.count_append] at hcount hqueue
  obtain ⟨hdelivered, hkept, hdropped, -⟩ |
    ⟨hdelivered, -, ⟨-, hkept, hdropped⟩ | ⟨-, oldest, rest, hfull, hkept, hdropped⟩⟩ := hcases
  · simp only [FaultLog.notifyFault, hdelivered, hkept, hdropped, List.count_append,
      List.count_nil]
    omega
  · simp only [FaultLog.notifyFault, hdelivered, hkept, hdropped, List.count_append,
      List.count_nil]
    omega
  · rw [hfull, List.count_cons] at hqueue
    simp only [FaultLog.notifyFault, hdelivered, hkept, hdropped, List.count_append,
      List.count_singleton]
    omega

/-- **One call keeps the invariant.** -/
theorem Inv.notifyFault (h : w.Inv) (rpc : ℕ → RpcOutcome) (info : FaultInfo) :
    (w.notifyFault rpc info).1.Inv := by
  obtain ⟨j, -, -, hinitialized, hcases⟩ :=
    FaultServiceClient.notifyFault_cases h.initialized rpc (w.fault info)
  have hnumbered : (w.submitted ++ [w.fault info]).map Prod.fst =
      List.range (w.submitted ++ [w.fault info]).length := by
    simp [h.numbered, List.range_succ, fault]
  have hdrop := List.drop_sublist j w.client.retryQueue
  have hlength := hdrop.length_le.trans h.bounded
  obtain ⟨-, hqueue, -⟩ | ⟨-, -, ⟨hroom, hqueue, -⟩ | ⟨-, oldest, rest, hkept, hqueue, -⟩⟩ :=
    hcases
  · refine ⟨hinitialized, hnumbered, h.perm_notifyFault rpc info, ?_, ?_⟩
    · simp only [FaultLog.notifyFault, hqueue]
      exact (hdrop.trans h.ordered).trans (List.sublist_append_left _ _)
    · simp only [FaultLog.notifyFault, hqueue]
      exact hlength
  · refine ⟨hinitialized, hnumbered, h.perm_notifyFault rpc info, ?_, ?_⟩
    · simp only [FaultLog.notifyFault, hqueue]
      exact h.sublist_append hdrop _
    · simp only [FaultLog.notifyFault, hqueue, List.length_append, List.length_singleton]
      exact hroom
  · have hrest : rest.Sublist w.client.retryQueue :=
      (List.sublist_cons_self oldest rest).trans (hkept ▸ hdrop)
    refine ⟨hinitialized, hnumbered, h.perm_notifyFault rpc info, ?_, ?_⟩
    · simp only [FaultLog.notifyFault, hqueue]
      exact h.sublist_append hrest _
    · simp only [FaultLog.notifyFault, hqueue, List.length_append, List.length_singleton]
      rw [hkept] at hlength
      exact hlength

theorem inv_of_reachableIf {P : FaultLog → (ℕ → RpcOutcome) × FaultInfo → Prop}
    (h : machine.ReachableIf P w) : w.Inv :=
  h.invariant (fun _ => inv_of_init) fun _ call _ hinv _ hnext =>
    Option.some.inj hnext ▸ hinv.notifyFault call.1 call.2

/-- The log of a client that has just been initialised. -/
def initial : FaultLog := ⟨⟨true, []⟩, [], [], []⟩

theorem initial_init : machine.init initial :=
  ⟨text "localhost:50055", true, rfl, rfl, rfl, rfl⟩

/-- The outcomes of the first RPCs of a call; the others succeed. -/
def outcomes (sent : List Bool) (k : ℕ) : RpcOutcome := ⟨sent.getD k true, 0⟩

def miss (cumulativeDmiss : UInt32) : FaultInfo :=
  ⟨text "w", text "n", text "t", .dmiss, cumulativeDmiss⟩

/-! ### No fault is lost silently -/

/-- What a call drops: nothing, or the oldest of a full queue when the new fault is not sent. -/
theorem Inv.dropped_notifyFault (h : w.Inv) (rpc : ℕ → RpcOutcome) (info : FaultInfo) :
    (w.notifyFault rpc info).1.dropped = w.dropped ∨
      (w.notifyFault rpc info).2 = false ∧ w.client.retryQueue.length = maxRetryQueue ∧
        ∃ oldest rest, w.client.retryQueue = oldest :: rest ∧
          (w.notifyFault rpc info).1.dropped = w.dropped ++ [oldest] := by
  obtain ⟨j, hj, -, -, ⟨-, -, hdropped, -⟩ | ⟨-, hresult, ⟨-, -, hdropped⟩ |
      ⟨hfull, oldest, rest, hkept, -, hdropped⟩⟩⟩ :=
    FaultServiceClient.notifyFault_cases h.initialized rpc (w.fault info)
  · left
    simp [FaultLog.notifyFault, hdropped]
  · left
    simp [FaultLog.notifyFault, hdropped]
  · -- the flush has delivered nothing: the queue is as long as it can be
    right
    have hbounded := h.bounded
    rw [List.length_drop] at hfull
    obtain rfl : j = 0 := by
      simp only [maxRetryQueue] at hfull hbounded
      omega
    refine ⟨hresult, le_antisymm hbounded (by simpa using hfull), oldest, rest, hkept, ?_⟩
    simp [FaultLog.notifyFault, hdropped]

theorem Inv.result_notifyFault (h : w.Inv) (rpc : ℕ → RpcOutcome) (info : FaultInfo) :
    (w.notifyFault rpc info).2 = true ↔ w.fault info ∈ (w.notifyFault rpc info).1.delivered := by
  have hnew := h.fault_notMem info
  have hold : w.fault info ∉ w.delivered := fun hmem =>
    hnew (h.accounted.mem_iff.2 (by simp [hmem]))
  have hqueued : ∀ j, w.fault info ∉ w.client.retryQueue.take j := fun j hmem =>
    hnew (h.ordered.subset (List.mem_of_mem_take hmem))
  obtain ⟨j, -, -, -, ⟨hdelivered, -, -, hresult, -⟩ | ⟨hdelivered, hresult, -⟩⟩ :=
    FaultServiceClient.notifyFault_cases h.initialized rpc (w.fault info)
  · simp [FaultLog.notifyFault, hdelivered, hresult]
  · simp [FaultLog.notifyFault, hdelivered, hresult, hold, hqueued]

/-- **No fault is lost silently.**  After each call every submitted fault is delivered, queued or
dropped, and only one of these, once; the queue is in order and bounded; a fault is dropped only if
a new one cannot be sent while the queue is full, and it is the oldest; the result of the call says
if its own fault has been delivered.  A call delivers the faults whose RPCs succeed: those of the queue
up to the first that fails, and then its own. -/
theorem accounted_of_reachable (h : machine.Reachable w) (rpc : ℕ → RpcOutcome)
    (info : FaultInfo) :
    let w' := (w.notifyFault rpc info).1
    let result := (w.notifyFault rpc info).2
    w'.submitted = w.submitted ++ [w.fault info] ∧ w'.submitted.Nodup ∧
      w'.submitted.Perm (w'.delivered ++ w'.client.retryQueue ++ w'.dropped) ∧
      w'.client.retryQueue.Sublist w'.submitted ∧ w'.client.retryQueue.length ≤ 1024 ∧
      (w'.dropped = w.dropped ∨ result = false ∧ w.client.retryQueue.length = 1024 ∧
        ∃ oldest rest, w.client.retryQueue = oldest :: rest ∧
          w'.dropped = w.dropped ++ [oldest]) ∧
      (result = true ↔ w.fault info ∈ w'.delivered) ∧
      ∃ j ≤ w.client.retryQueue.length, (∀ i < j, sendFaultRpc (rpc i) = true) ∧
        (j < w.client.retryQueue.length → sendFaultRpc (rpc j) = false) ∧
        result = sendFaultRpc (rpc (min (j + 1) w.client.retryQueue.length)) ∧
        w'.delivered = w.delivered ++ (w.client.retryQueue.take j ++
          if result then [w.fault info] else []) := by
  intro w' result
  have hinv := inv_of_reachableIf h
  have hinv' : w'.Inv := hinv.notifyFault rpc info
  refine ⟨rfl, hinv'.nodup, hinv'.accounted, hinv'.ordered, hinv'.bounded,
    hinv.dropped_notifyFault rpc info, hinv.result_notifyFault rpc info, ?_⟩
  obtain ⟨j, hj, hbefore, hfailed, hresult, hdelivered⟩ :=
    FaultServiceClient.delivered_notifyFault hinv.initialized rpc (w.fault info)
  exact ⟨j, hj, hbefore, hfailed, hresult, congrArg (w.delivered ++ ·) hdelivered⟩

/-- The fault of a first, failed call is delivered in the second, whose own fault is queued. -/
theorem accounted_second_call :
    let w := (initial.notifyFault (outcomes [false]) (miss 1)).1
    let w' := (w.notifyFault (outcomes [true, false]) (miss 2)).1
    machine.Reachable w ∧ w'.delivered = [(0, miss 1)] ∧ w'.client.retryQueue = [(1, miss 2)] ∧
      w'.submitted.Perm (w'.delivered ++ w'.client.retryQueue ++ w'.dropped) := by
  intro w w'
  have hreach : machine.Reachable w :=
    (Machine.ReachableIf.of_init initial_init).next trivial
      (show machine.next initial (outcomes [false], miss 1) = some w from rfl)
  exact ⟨hreach, by decide, by decide,
    (accounted_of_reachable hreach (outcomes [true, false]) (miss 2)).2.2.1⟩

/-! ### Order -/

/-- The RPC for the new fault does not succeed after one for a queued fault has failed. -/
def Orderly (w : FaultLog) (call : (ℕ → RpcOutcome) × FaultInfo) : Prop :=
  ∀ j < w.client.retryQueue.length, (∀ i < j, sendFaultRpc (call.1 i) = true) →
    sendFaultRpc (call.1 j) = false → sendFaultRpc (call.1 (j + 1)) = false

theorem Inv.sublist_notifyFault (h : w.Inv)
    (horder : (w.delivered ++ w.client.retryQueue).Sublist w.submitted)
    (hcall : w.Orderly (rpc, info)) :
    ((w.notifyFault rpc info).1.delivered ++ (w.notifyFault rpc info).1.client.retryQueue).Sublist
      (w.notifyFault rpc info).1.submitted := by
  obtain ⟨j, hj, hbefore, -, ⟨hdelivered, hqueue, -, -, hskipped⟩ | ⟨hdelivered, -, hqueued⟩⟩ :=
    FaultServiceClient.notifyFault_cases h.initialized rpc (w.fault info)
  · -- the new fault is delivered, so the flush was complete
    have hall : j = w.client.retryQueue.length := by
      by_contra hne
      obtain ⟨hfailed, hsent⟩ := hskipped (lt_of_le_of_ne hj hne)
      rw [hcall j (lt_of_le_of_ne hj hne) hbefore hfailed] at hsent
      exact Bool.false_ne_true hsent
    simp only [FaultLog.notifyFault, hdelivered, hqueue, hall, List.take_length, List.drop_length,
      List.append_nil, ← List.append_assoc]
    exact horder.append (List.Sublist.refl _)
  · simp only [FaultLog.notifyFault, hdelivered]
    rw [← List.take_append_drop j w.client.retryQueue, ← List.append_assoc] at horder
    obtain ⟨-, hqueue, -⟩ | ⟨-, oldest, rest, hkept, hqueue, -⟩ := hqueued
    · rw [hqueue, ← List.append_assoc]
      exact horder.append (List.Sublist.refl _)
    · rw [hkept] at horder
      rw [hqueue, ← List.append_assoc]
      refine List.Sublist.append (List.Sublist.trans ?_ horder) (List.Sublist.refl _)
      exact (List.Sublist.refl _).append (List.sublist_cons_self oldest rest)

/-- **Faults arrive in order** in every run all of whose calls are orderly. -/
theorem delivered_sublist_submitted (h : machine.ReachableIf Orderly w) :
    w.delivered.Sublist w.submitted := by
  have hrun : w.Inv ∧ (w.delivered ++ w.client.retryQueue).Sublist w.submitted := by
    refine Machine.ReachableIf.invariant
      (I := fun w => w.Inv ∧ (w.delivered ++ w.client.retryQueue).Sublist w.submitted) h
      (fun w hw => ⟨inv_of_init hw, ?_⟩) fun w call w' hw hcall hnext => ?_
    · obtain ⟨hclient, hsubmitted, hdelivered, -⟩ := client_of_init hw
      simp [hclient, hsubmitted, hdelivered]
    · obtain rfl := Option.some.inj hnext
      exact ⟨hw.1.notifyFault call.1 call.2, hw.1.sublist_notifyFault hw.2 hcall⟩
  exact (List.sublist_append_left _ _).trans hrun.2

/-- The first fault stays queued until the third call, whose RPCs succeed. -/
theorem delivered_in_order :
    let w := (initial.notifyFault (outcomes [false]) (miss 1)).1
    let w' := (w.notifyFault (outcomes [false, false]) (miss 2)).1
    let w'' := (w'.notifyFault (outcomes []) (miss 3)).1
    machine.ReachableIf Orderly w'' ∧ w''.delivered = [(0, miss 1), (1, miss 2), (2, miss 3)] ∧
      w''.delivered.Sublist w''.submitted := by
  intro w w' w''
  have hreach : machine.ReachableIf Orderly w'' := by
    refine Machine.ReachableIf.next (a := (outcomes [], miss 3)) (s := w') ?_ ?_ rfl
    · refine Machine.ReachableIf.next (a := (outcomes [false, false], miss 2)) (s := w) ?_ ?_ rfl
      · exact (Machine.ReachableIf.of_init initial_init).next (a := (outcomes [false], miss 1))
          (fun j hj => absurd hj (Nat.not_lt_zero j)) rfl
      · intro j hj _ _
        obtain rfl : j = 0 := Nat.lt_one_iff.1 hj
        decide
    · intro j _ _ hfailed
      simp [outcomes, sendFaultRpc] at hfailed
  exact ⟨hreach, by decide, delivered_sublist_submitted hreach⟩

/-- **Faults can be reordered.**  The RPC that retries the first fault in the second call fails, and
the one for the second fault succeeds; the first fault is delivered in the third call. -/
theorem delivered_out_of_order :
    ∃ w, machine.Reachable w ∧ w.submitted = [(0, miss 1), (1, miss 2), (2, miss 3)] ∧
      w.delivered = [(1, miss 2), (0, miss 1), (2, miss 3)] ∧
      ¬ w.delivered.Sublist w.submitted := by
  have heval : (machine.exec initial [(outcomes [false], miss 1), (outcomes [false, true], miss 2),
      (outcomes [], miss 3)]).any (fun w => decide (
        w.submitted = [(0, miss 1), (1, miss 2), (2, miss 3)] ∧
        w.delivered = [(1, miss 2), (0, miss 1), (2, miss 3)] ∧
        ¬ w.delivered.Sublist w.submitted)) = true := by
    decide +kernel
  obtain ⟨w, hw, heval⟩ := (Option.any_eq_true _ _).1 heval
  exact ⟨w, Machine.reachable_of_exec initial_init hw, of_decide_eq_true heval⟩

end FaultLog

end Timpani
