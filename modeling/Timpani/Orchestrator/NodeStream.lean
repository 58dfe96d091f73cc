import Timpani.Orchestrator.ReplayLoop

/-!
# Streams and the registry of nodes

Every node keeps a stream open to the orchestrator.  The handler of a stream, `NodeStream`, reads
events until the stream breaks; the first event that names a node registers the stream under that
name, and at the end the handler takes the name out of the registry again.  Meanwhile other threads
look streams up and write commands on them.

The handlers and the writers run concurrently.  Each critical section on `nodes_mutex_` or
`write_mutex` is one action, and so is each step of a handler outside of them; the stream object
lives as long as its handler runs.

* `OrchestratorService.machine` : handlers, pushes and broadcasts in any interleaving;
* `tracksLive_iff` : the registry has the latest open stream of every node exactly as long as no
  handler takes out a name under which another open stream is registered;
* `not_tracksLive_reconnect` : a node that reconnects before its old stream is torn down;
* `noLateWrite_iff` : no command is written on a finished stream exactly as long as no handler
  returns while a push has found its stream and not yet written on it;
* `lateWrite_disconnect` : a disconnect between the two critical sections of a push;
* `viewStep_of_next` : seen from the replay loop, the streams do what `Orchestrator.machine` says.
-/

namespace Timpani

/-- A handler `NodeStream`.  The name is empty until an event has named the node. -/
inductive NodeStream where
  /-- It waits for the next event; the stream is open. -/
  | reading (nodeId : Text)
  /-- It has just learned the name. -/
  | registering (nodeId : Text)
  /-- `Read` has failed, but the name is still registered. -/
  | closing (nodeId : Text)
  | leaving
  /-- It has returned, and the stream object is gone. -/
  | returned
  deriving DecidableEq, Repr

/-- The state of `OrchestratorServiceImpl`.  Streams are numbered in the order in which they are
opened; a `ConnectedNode` is given by the number of its stream. -/
structure OrchestratorService where
  handlers : List NodeStream
  connectedNodes : Std.ExtTreeMap Text ℕ
  /-- The calls of `push_full_table` that have looked up a stream and not yet written on it. -/
  pushes : List (ℕ × HierarchicalScheduleTable)
  /-- The calls of `Write`, with their streams. -/
  written : List (ℕ × ControlCommand)
  /-- The stream that named each node last. -/
  lastNamed : Std.ExtTreeMap Text ℕ

namespace OrchestratorService

def new : OrchestratorService := ⟨[], ∅, [], [], ∅⟩

/-- What can happen. -/
inductive Action where
  | openStream
  /-- `Read` returns an event. -/
  | read (stream : ℕ) (nodeId : Text)
  /-- The first critical section of a handler. -/
  | register (stream : ℕ)
  | readFails (stream : ℕ)
  /-- The second critical section of a handler. -/
  | unregister (stream : ℕ)
  | leave (stream : ℕ)
  /-- The first critical section of `push_full_table`. -/
  | lookup (nodeId : Text) (table : HierarchicalScheduleTable)
  /-- The second critical section of the `i`-th pending `push_full_table`. -/
  | write (i : ℕ)
  | broadcastRecoverySignal (workloadId : Text) (action : RecoveryAction)
  deriving DecidableEq, Repr

/-- The streams on which an action calls `Write`, with the commands. -/
def writes (s : OrchestratorService) : Action → List (ℕ × ControlCommand)
  | .write i => (s.pushes[i]?.map fun (stream, table) => (stream, .fullTable table)).toList
  | .broadcastRecoverySignal workloadId action =>
    s.connectedNodes.toList.map fun (_, stream) => (stream, .recovery workloadId action)
  | _ => []

/-- Set the state of a handler. -/
def setHandler (s : OrchestratorService) (stream : ℕ) (h : NodeStream) : OrchestratorService :=
  { s with handlers := s.handlers.set stream h }

/-- Handlers, pushes and broadcasts in any interleaving. -/
def machine : Machine OrchestratorService Action where
  init s := s = new
  next s
    | .openStream => some { s with handlers := s.handlers ++ [.reading []] }
    | .read stream nodeId =>
      match s.handlers[stream]? with
      | some (.reading current) =>
        if current = [] ∧ nodeId ≠ [] then some (s.setHandler stream (.registering nodeId))
        else some s
      | _ => none
    | .register stream =>
      match s.handlers[stream]? with
      | some (.registering nodeId) =>
        some { s.setHandler stream (.reading nodeId) with
          connectedNodes := s.connectedNodes.insert nodeId stream
          lastNamed := s.lastNamed.insert nodeId stream }
      | _ => none
    | .readFails stream =>
      match s.handlers[stream]? with
      | some (.reading nodeId) =>
        some (s.setHandler stream (if nodeId = [] then .leaving else .closing nodeId))
      | _ => none
    | .unregister stream =>
      match s.handlers[stream]? with
      | some (.closing nodeId) =>
        some { s.setHandler stream .leaving with
          connectedNodes := s.connectedNodes.erase nodeId }
      | _ => none
    | .leave stream =>
      if s.handlers[stream]? = some .leaving then some (s.setHandler stream .returned) else none
    | .lookup nodeId table =>
      match s.connectedNodes[nodeId]? with
      | some stream => some { s with pushes := s.pushes ++ [(stream, table)] }
      | none => some s
    | .write i =>
      if i < s.pushes.length then
        some { s with
          pushes := s.pushes.eraseIdx i
          written := s.written ++ s.writes (.write i) }
      else none
    | .broadcastRecoverySignal workloadId action =>
      some { s with written := s.written ++ s.writes (.broadcastRecoverySignal workloadId action) }

/-! ### The properties and the conditions -/

/-- The latest stream that named a node is registered under the name as long as it is open. -/
def TracksLive (s : OrchestratorService) : Prop :=
  ∀ (nodeId : Text) (stream : ℕ), s.lastNamed[nodeId]? = some stream →
    s.handlers[stream]? = some (.reading nodeId) → s.connectedNodes[nodeId]? = some stream

/-- A handler takes a name out only if it is its own stream that is registered under it, or one that
is not open any more. -/
def TakesOutOwn (s : OrchestratorService) : Action → Prop
  | .unregister stream => ∀ (nodeId : Text) (other : ℕ),
      s.handlers[stream]? = some (.closing nodeId) → s.connectedNodes[nodeId]? = some other →
      s.handlers[other]? ≠ some (.reading nodeId)
  | _ => True

/-- Whatever happens next, `Write` is not called on a stream whose handler has returned. -/
def NoLateWrite (s : OrchestratorService) : Prop :=
  ∀ a s', machine.next s a = some s' → ∀ w ∈ s.writes a, s.handlers[w.1]? ≠ some .returned

/-- A handler returns only if no push is about to write on its stream. -/
def ReturnsUnused (s : OrchestratorService) : Action → Prop
  | .leave stream => ∀ p ∈ s.pushes, p.1 ≠ stream
  | _ => True

/-! ### What a step does -/

section Step

variable {s s' : OrchestratorService} {a : Action} {nodeId : Text} {stream : ℕ}

/-- Everything an action can do. -/
inductive Step (s : OrchestratorService) : Action → OrchestratorService → Prop
  | openStream : Step s .openStream { s with handlers := s.handlers ++ [.reading []] }
  | readOn {stream : ℕ} {current nodeId : Text}
      (h : s.handlers[stream]? = some (.reading current)) : Step s (.read stream nodeId) s
  | readName {stream : ℕ} {nodeId : Text} (h : s.handlers[stream]? = some (.reading []))
      (hne : nodeId ≠ []) :
    Step s (.read stream nodeId) (s.setHandler stream (.registering nodeId))
  | register {stream : ℕ} {nodeId : Text} (h : s.handlers[stream]? = some (.registering nodeId)) :
    Step s (.register stream) { s.setHandler stream (.reading nodeId) with
      connectedNodes := s.connectedNodes.insert nodeId stream
      lastNamed := s.lastNamed.insert nodeId stream }
  | readFailsUnnamed {stream : ℕ} (h : s.handlers[stream]? = some (.reading [])) :
    Step s (.readFails stream) (s.setHandler stream .leaving)
  | readFails {stream : ℕ} {nodeId : Text} (h : s.handlers[stream]? = some (.reading nodeId))
      (hne : nodeId ≠ []) : Step s (.readFails stream) (s.setHandler stream (.closing nodeId))
  | unregister {stream : ℕ} {nodeId : Text} (h : s.handlers[stream]? = some (.closing nodeId)) :
    Step s (.unregister stream) { s.setHandler stream .leaving with
      connectedNodes := s.connectedNodes.erase nodeId }
  | leave {stream : ℕ} (h : s.handlers[stream]? = some .leaving) :
    Step s (.leave stream) (s.setHandler stream .returned)
  | lookup {nodeId : Text} {stream : ℕ} {table : HierarchicalScheduleTable}
      (h : s.connectedNodes[nodeId]? = some stream) :
    Step s (.lookup nodeId table) { s with pushes := s.pushes ++ [(stream, table)] }
  | lookupNone {nodeId : Text} {table : HierarchicalScheduleTable}
      (h : s.connectedNodes[nodeId]? = none) : Step s (.lookup nodeId table) s
  | write {i : ℕ} (h : i < s.pushes.length) :
    Step s (.write i) { s with
      pushes := s.pushes.eraseIdx i
      written := s.written ++ s.writes (.write i) }
  | broadcast {workloadId : Text} {action : RecoveryAction} :
    Step s (.broadcastRecoverySignal workloadId action) { s with
      written := s.written ++ s.writes (.broadcastRecoverySignal workloadId action) }

theorem step_of_next (hn : machine.next s a = some s') : Step s a s' := by
  cases a with
  | openStream => cases hn; exact .openStream
  | read stream nodeId =>
    dsimp only [machine] at hn
    split at hn
    · next current h =>
      split_ifs at hn with hname
      · cases hn
        exact .readName (hname.1 ▸ h) hname.2
      · cases hn
        exact .readOn h
    · cases hn
  | register stream =>
    dsimp only [machine] at hn
    split at hn
    · next h => cases hn; exact .register h
    · cases hn
  | readFails stream =>
    dsimp only [machine] at hn
    split at hn
    · next nodeId h =>
      cases hn
      split_ifs with hname
      · exact .readFailsUnnamed (hname ▸ h)
      · exact .readFails h hname
    · cases hn
  | unregister stream =>
    dsimp only [machine] at hn
    split at hn
    · next h => cases hn; exact .unregister h
    · cases hn
  | leave stream =>
    obtain ⟨h, hn⟩ := Option.ite_none_right_eq_some.1 hn
    cases hn
    exact .leave h
  | lookup nodeId table =>
    dsimp only [machine] at hn
    split at hn
    · next h => cases hn; exact .lookup h
    · next h => cases hn; exact .lookupNone h
  | write i =>
    obtain ⟨h, hn⟩ := Option.ite_none_right_eq_some.1 hn
    cases hn
    exact .write h
  | broadcastRecoverySignal workloadId action => cases hn; exact .broadcast

theorem getElem?_setHandler {i : ℕ} {old new : NodeStream}
    (hold : s.handlers[stream]? = some old) :
    (s.setHandler stream new).handlers[i]? = if i = stream then some new else s.handlers[i]? := by
  obtain ⟨hlt, -⟩ := List.getElem?_eq_some_iff.1 hold
  rw [setHandler, List.getElem?_set]
  split_ifs with h₁ h₂ h₂ <;> first | rfl | omega

theorem of_getElem?_setHandler {i : ℕ} {old new h : NodeStream}
    (hold : s.handlers[stream]? = some old) (hi : (s.setHandler stream new).handlers[i]? = some h)
    (hne : new ≠ h) : i ≠ stream ∧ s.handlers[i]? = some h := by
  rw [getElem?_setHandler hold] at hi
  split_ifs at hi with heq
  · exact absurd (Option.some.inj hi) hne
  · exact ⟨heq, hi⟩

/-! ### The invariant -/

/-- What holds in every state. -/
structure Inv (s : OrchestratorService) : Prop where
  /-- A registered stream is the last one that named the node. -/
  lastNamed : ∀ (nodeId : Text) (stream : ℕ), s.connectedNodes[nodeId]? = some stream →
    s.lastNamed[nodeId]? = some stream
  /-- Its handler has not taken the name out. -/
  registered : ∀ (nodeId : Text) (stream : ℕ), s.connectedNodes[nodeId]? = some stream →
    s.handlers[stream]? = some (.reading nodeId) ∨ s.handlers[stream]? = some (.closing nodeId)
  named : ∀ (nodeId : Text) (stream : ℕ), s.lastNamed[nodeId]? = some stream →
    nodeId ≠ [] ∧ stream < s.handlers.length
  registering : ∀ (nodeId : Text) (stream : ℕ),
    s.handlers[stream]? = some (.registering nodeId) → nodeId ≠ []

theorem inv_new : Inv new where
  lastNamed nodeId stream h := by simp [new] at h
  registered nodeId stream h := by simp [new] at h
  named nodeId stream h := by simp [new] at h
  registering nodeId stream h := by simp [new] at h

theorem Inv.setHandler {old new : NodeStream} (hinv : Inv s)
    (hold : s.handlers[stream]? = some old)
    (hkeep : ∀ nodeId : Text, s.connectedNodes[nodeId]? = some stream →
      new = .reading nodeId ∨ new = .closing nodeId)
    (hreg : ∀ nodeId, new = .registering nodeId → nodeId ≠ []) :
    Inv (s.setHandler stream new) where
  lastNamed := hinv.lastNamed
  registered nodeId i hi := by
    rw [getElem?_setHandler hold]
    split_ifs with heq
    · exact (hkeep nodeId (heq ▸ hi)).imp (congrArg some) (congrArg some)
    · exact hinv.registered nodeId i hi
  named nodeId i hi := by
    rw [OrchestratorService.setHandler, List.length_set]
    exact hinv.named nodeId i hi
  registering nodeId i hi := by
    rw [getElem?_setHandler hold] at hi
    split_ifs at hi with heq
    · exact hreg nodeId (Option.some.inj hi)
    · exact hinv.registering nodeId i hi

/-- A stream that has not named a node yet, or has taken its name out, is not registered. -/
theorem Inv.not_registered (hinv : Inv s) (hold : s.handlers[stream]? = some old)
    (hne : ∀ nodeId ≠ [], old ≠ .reading nodeId ∧ old ≠ .closing nodeId) :
    s.connectedNodes[nodeId]? ≠ some stream := by
  intro hreg
  obtain ⟨hread, hclose⟩ := hne nodeId (hinv.named _ _ (hinv.lastNamed _ _ hreg)).1
  rcases hinv.registered _ _ hreg with h | h
  · exact hread (Option.some.inj (hold.symm.trans h))
  · exact hclose (Option.some.inj (hold.symm.trans h))

theorem Inv.openStream (hinv : Inv s) : Inv { s with handlers := s.handlers ++ [.reading []] } := by
  have hlen : ∀ (nodeId : Text) (i : ℕ), s.lastNamed[nodeId]? = some i →
      (s.handlers ++ [.reading []])[i]? = s.handlers[i]? := fun nodeId i hi =>
    List.getElem?_append_left (hinv.named nodeId i hi).2
  refine ⟨hinv.lastNamed, fun nodeId i hi => ?_, fun nodeId i hi => ?_, fun nodeId i hi => ?_⟩
  · rw [hlen nodeId i (hinv.lastNamed nodeId i hi)]
    exact hinv.registered nodeId i hi
  · exact ⟨(hinv.named nodeId i hi).1, by
      rw [List.length_append]; exact Nat.lt_add_right _ (hinv.named nodeId i hi).2⟩
  · rw [List.getElem?_append] at hi
    split_ifs at hi
    · exact hinv.registering nodeId i hi
    · rw [List.getElem?_singleton] at hi
      split_ifs at hi
      cases hi

theorem Inv.register (hinv : Inv s) (h : s.handlers[stream]? = some (.registering nodeId)) :
    Inv { s.setHandler stream (.reading nodeId) with
      connectedNodes := s.connectedNodes.insert nodeId stream
      lastNamed := s.lastNamed.insert nodeId stream } := by
  have hset := @Inv.setHandler s stream _ (.reading nodeId) hinv h
    (fun nodeId hreg => absurd hreg (hinv.not_registered h (by simp))) (by simp)
  refine ⟨fun id i hi => ?_, fun id i hi => ?_, fun id i hi => ?_, hset.registering⟩
  all_goals
    rw [Std.ExtTreeMap.getElem?_insert] at hi
    split_ifs at hi with heq
  · cases hi
    rw [Std.ExtTreeMap.getElem?_insert, if_pos heq]
  · rw [Std.ExtTreeMap.getElem?_insert, if_neg heq]
    exact hinv.lastNamed id i hi
  · cases hi
    obtain rfl := Std.LawfulEqCmp.eq_of_compare heq
    exact Or.inl (by rw [getElem?_setHandler h, if_pos rfl])
  · exact hset.registered id i hi
  · cases hi
    obtain rfl := Std.LawfulEqCmp.eq_of_compare heq
    refine ⟨hinv.registering _ _ h, ?_⟩
    rw [OrchestratorService.setHandler, List.length_set]
    exact (List.getElem?_eq_some_iff.1 h).1
  · exact hset.named id i hi

theorem Inv.unregister (hinv : Inv s) (h : s.handlers[stream]? = some (.closing nodeId)) :
    Inv { s.setHandler stream .leaving with
      connectedNodes := s.connectedNodes.erase nodeId } := by
  -- what stays registered belongs to the other streams
  have hother : ∀ (id : Text) (i : ℕ), (s.connectedNodes.erase nodeId)[id]? = some i →
      s.connectedNodes[id]? = some i ∧ i ≠ stream := by
    intro id i hi
    rw [Std.ExtTreeMap.getElem?_erase] at hi
    split_ifs at hi with hne
    refine ⟨hi, ?_⟩
    rintro rfl
    rcases hinv.registered id i hi with h' | h' <;> cases h.symm.trans h'
    exact hne Std.ReflCmp.compare_self
  refine ⟨fun id i hi => hinv.lastNamed id i (hother id i hi).1, fun id i hi => ?_,
    fun id i hi => ?_, fun id i hi => ?_⟩
  · rw [getElem?_setHandler h, if_neg (hother id i hi).2]
    exact hinv.registered id i (hother id i hi).1
  · rw [OrchestratorService.setHandler, List.length_set]
    exact hinv.named id i hi
  · exact hinv.registering id i (of_getElem?_setHandler h hi (by simp)).2

theorem Inv.step (hinv : Inv s) (hstep : Step s a s') : Inv s' := by
  cases hstep with
  | openStream => exact hinv.openStream
  | readOn => exact hinv
  | readName h hne =>
    refine hinv.setHandler h (fun nodeId hreg => absurd hreg (hinv.not_registered h ?_)) ?_
    · exact fun nodeId hne => ⟨by simpa using hne.symm, by simp⟩
    · rintro _ ⟨⟩
      exact hne
  | register h => exact hinv.register h
  | readFailsUnnamed h =>
    refine hinv.setHandler h (fun nodeId hreg => absurd hreg (hinv.not_registered h ?_)) (by simp)
    exact fun nodeId hne => ⟨by simpa using hne.symm, by simp⟩
  | readFails h hne =>
    refine hinv.setHandler h (fun id hreg => ?_) (by simp)
    rcases hinv.registered id _ hreg with h' | h'
    · cases h.symm.trans h'
      exact Or.inr rfl
    · cases h.symm.trans h'
  | unregister h => exact hinv.unregister h
  | leave h =>
    exact hinv.setHandler h (fun nodeId hreg => absurd hreg (hinv.not_registered h (by simp)))
      (by simp)
  | lookup h => exact ⟨hinv.lastNamed, hinv.registered, hinv.named, hinv.registering⟩
  | lookupNone h => exact hinv
  | write h => exact ⟨hinv.lastNamed, hinv.registered, hinv.named, hinv.registering⟩
  | broadcast => exact ⟨hinv.lastNamed, hinv.registered, hinv.named, hinv.registering⟩

theorem inv_of_reachableIf {ok : OrchestratorService → Action → Prop}
    (h : machine.ReachableIf ok s) : Inv s := by
  refine h.invariant ?_ fun s a s' hinv _ hn => hinv.step (step_of_next hn)
  rintro _ rfl
  exact inv_new

/-! ### Live streams are registered -/

theorem TracksLive.setHandler {old new : NodeStream} (h : TracksLive s)
    (hold : s.handlers[stream]? = some old) (hne : ∀ nodeId, new ≠ .reading nodeId) :
    TracksLive (s.setHandler stream new) := fun nodeId i hi hopen =>
  h nodeId i hi (of_getElem?_setHandler hold hopen (hne nodeId)).2

theorem TracksLive.step_iff (h : TracksLive s) (hinv : Inv s) (hstep : Step s a s') :
    TracksLive s' ↔ TakesOutOwn s a := by
  cases hstep with
  | openStream =>
    refine iff_of_true (fun nodeId i hi hopen => h nodeId i hi ?_) trivial
    rwa [List.getElem?_append_left (hinv.named nodeId i hi).2] at hopen
  | readOn => exact iff_of_true h trivial
  | readName hold => exact iff_of_true (h.setHandler hold (by simp)) trivial
  | @register stream nodeId hold =>
    refine iff_of_true (fun id i hi hopen => ?_) trivial
    rw [Std.ExtTreeMap.getElem?_insert] at hi ⊢
    split_ifs at hi ⊢ with heq
    · exact hi
    · -- the other streams are as before
      refine h id i hi (of_getElem?_setHandler hold hopen ?_).2
      rintro ⟨⟩
      exact heq Std.ReflCmp.compare_self
  | readFailsUnnamed hold => exact iff_of_true (h.setHandler hold (by simp)) trivial
  | readFails hold => exact iff_of_true (h.setHandler hold (by simp)) trivial
  | @unregister stream nodeId hold =>
    constructor
    · intro h' id other hclosing hreg hopen
      cases hold.symm.trans hclosing
      -- the other stream stays open, and is not registered any more
      have hne : other ≠ stream := by
        rintro rfl
        cases hold.symm.trans hopen
      have := h' nodeId other (hinv.lastNamed nodeId other hreg)
        (by rwa [getElem?_setHandler hold, if_neg hne])
      rw [Std.ExtTreeMap.getElem?_erase, if_pos Std.ReflCmp.compare_self] at this
      cases this
    · intro hown id i hi hopen
      have hopen := (of_getElem?_setHandler hold hopen (by simp)).2
      have hreg := h id i hi hopen
      rw [Std.ExtTreeMap.getElem?_erase, if_neg, hreg]
      intro heq
      obtain rfl := Std.LawfulEqCmp.eq_of_compare heq
      exact hown nodeId i hold hreg hopen
  | leave hold => exact iff_of_true (h.setHandler hold (by simp)) trivial
  | lookup => exact iff_of_true h trivial
  | lookupNone => exact iff_of_true h trivial
  | write => exact iff_of_true h trivial
  | broadcast => exact iff_of_true h trivial

/-! ### No command after the end -/

/-- The streams that pending pushes have found are still there. -/
def PushesAlive (s : OrchestratorService) : Prop :=
  ∀ p ∈ s.pushes, s.handlers[p.1]? ≠ some .returned

theorem Inv.noLateWrite_iff_pushesAlive (hinv : Inv s) : NoLateWrite s ↔ PushesAlive s := by
  constructor
  · intro h p hp
    obtain ⟨i, hi, rfl⟩ := List.mem_iff_getElem.1 hp
    refine h (.write i) _ (if_pos hi) (s.pushes[i].1, .fullTable s.pushes[i].2) ?_
    simp [writes, List.getElem?_eq_getElem hi]
  · intro h a s' hn w hw
    cases step_of_next hn with
    | @write i hi =>
      simp only [writes, List.getElem?_eq_getElem hi, Option.map_some, Option.toList_some,
        List.mem_singleton] at hw
      subst hw
      exact h _ (List.getElem_mem hi)
    | broadcast =>
      -- a registered stream has not been left
      obtain ⟨⟨nodeId, i⟩, hmem, rfl⟩ := List.mem_map.1 hw
      rw [Std.ExtTreeMap.mem_toList_iff_getElem?_eq_some] at hmem
      rcases hinv.registered nodeId i hmem with h | h <;> simp [h]
    | _ => cases hw

theorem PushesAlive.setHandler {old new : NodeStream} (h : PushesAlive s)
    (hold : s.handlers[stream]? = some old) (hne : new ≠ .returned) :
    PushesAlive (s.setHandler stream new) := fun p hp hret =>
  h p hp (of_getElem?_setHandler hold hret hne).2

theorem PushesAlive.step_iff (h : PushesAlive s) (hinv : Inv s) (hstep : Step s a s') :
    PushesAlive s' ↔ ReturnsUnused s a := by
  cases hstep with
  | openStream =>
    refine iff_of_true (fun p hp hret => ?_) trivial
    rw [List.getElem?_append] at hret
    split_ifs at hret
    · exact h p hp hret
    · rw [List.getElem?_singleton] at hret
      split_ifs at hret
      cases hret
  | readOn => exact iff_of_true h trivial
  | readName hold => exact iff_of_true (h.setHandler hold (by simp)) trivial
  | register hold => exact iff_of_true (h.setHandler hold (by simp)) trivial
  | readFailsUnnamed hold => exact iff_of_true (h.setHandler hold (by simp)) trivial
  | readFails hold => exact iff_of_true (h.setHandler hold (by simp)) trivial
  | unregister hold => exact iff_of_true (h.setHandler hold (by simp)) trivial
  | leave hold =>
    constructor
    · rintro h' p hp rfl
      exact h' p hp (by rw [getElem?_setHandler hold, if_pos rfl])
    · intro hunused p hp
      rw [getElem?_setHandler hold, if_neg (hunused p hp)]
      exact h p hp
  | @lookup nodeId stream table hreg =>
    refine iff_of_true (fun p hp => ?_) trivial
    rcases List.mem_append.1 hp with hp | hp
    · exact h p hp
    · rw [List.mem_singleton.1 hp]
      rcases hinv.registered nodeId stream hreg with h | h <;> simp [h]
  | lookupNone => exact iff_of_true h trivial
  | write => exact iff_of_true (fun p hp => h p (List.mem_of_mem_eraseIdx hp)) trivial
  | broadcast => exact iff_of_true h trivial

end Step

/-! ### Whole runs -/

/-- **When the registry tracks the live streams**: in every run in which handlers take out the names
of their own streams only, and after every step exactly if it did. -/
theorem tracksLive_iff (s : OrchestratorService) (h : machine.ReachableIf TakesOutOwn s) :
    TracksLive s ∧ ∀ a s', machine.next s a = some s' → (TracksLive s' ↔ TakesOutOwn s a) := by
  have hlive : TracksLive s ∧ Inv s := by
    refine h.invariant (I := fun s => TracksLive s ∧ Inv s) ?_ fun s a s' hI hok hn => ?_
    · rintro _ rfl
      exact ⟨fun nodeId stream h => by simp [new] at h, inv_new⟩
    · exact ⟨(hI.1.step_iff hI.2 (step_of_next hn)).2 hok, hI.2.step (step_of_next hn)⟩
  exact ⟨hlive.1, fun a s' hn => hlive.1.step_iff hlive.2 (step_of_next hn)⟩

/-- A node connects, and reconnects while the handler of its old stream is still reading. -/
def reconnect : List Action :=
  [.openStream, .read 0 (text "n"), .register 0, .openStream, .read 1 (text "n"), .register 1,
    .readFails 0]

/-- The old handler then takes the name of the new stream out: the node is connected, and cannot be
reached. -/
theorem not_tracksLive_reconnect :
    ∃ s, machine.Reachable s ∧ s.lastNamed[text "n"]? = some 1 ∧
      s.handlers[1]? = some (.reading (text "n")) ∧ s.connectedNodes[text "n"]? = none ∧
      ¬ TracksLive s := by
  have heval : (machine.exec new (reconnect ++ [.unregister 0])).any (fun s =>
      decide (s.lastNamed[text "n"]? = some 1 ∧ s.handlers[1]? = some (.reading (text "n")) ∧
        s.connectedNodes[text "n"]? = none)) = true := by decide +kernel
  obtain ⟨s, hs, hall⟩ := (Option.any_eq_true _ _).1 heval
  obtain ⟨hnamed, hopen, hnone⟩ := of_decide_eq_true hall
  refine ⟨s, Machine.reachable_of_exec rfl hs, hnamed, hopen, hnone, fun hlive => ?_⟩
  have := hlive (text "n") 1 hnamed hopen
  rw [hnone] at this
  cases this

/-- The node is reachable on its new stream until the old handler comes to its end. -/
theorem tracksLive_iff_reconnect :
    ∃ s, machine.ReachableIf TakesOutOwn s ∧ s.connectedNodes[text "n"]? = some 1 ∧
      (TracksLive s ∧
        ∀ a s', machine.next s a = some s' → (TracksLive s' ↔ TakesOutOwn s a)) := by
  have heval : (machine.exec new reconnect).any
      (fun s => decide (s.connectedNodes[text "n"]? = some 1)) = true := by decide +kernel
  obtain ⟨s, hs, hall⟩ := (Option.any_eq_true _ _).1 heval
  have hreach : machine.ReachableIf TakesOutOwn s := by
    refine ⟨new, rfl, Machine.leads_of_exec ?_ hs⟩
    simp only [reconnect, List.mem_cons, List.not_mem_nil, or_false]
    rintro a (rfl | rfl | rfl | rfl | rfl | rfl | rfl) s <;> trivial
  exact ⟨s, hreach, of_decide_eq_true hall, tracksLive_iff s hreach⟩

/-- **When nothing is written on a finished stream**: in every run in which no handler returns while
a push is about to write on its stream, and after every step exactly if that was so. -/
theorem noLateWrite_iff (s : OrchestratorService) (h : machine.ReachableIf ReturnsUnused s) :
    NoLateWrite s ∧ ∀ a s', machine.next s a = some s' → (NoLateWrite s' ↔ ReturnsUnused s a) := by
  have halive : PushesAlive s ∧ Inv s := by
    refine h.invariant (I := fun s => PushesAlive s ∧ Inv s) ?_ fun s a s' hI hok hn => ?_
    · rintro _ rfl
      exact ⟨fun p hp => by simp [new] at hp, inv_new⟩
    · exact ⟨(hI.1.step_iff hI.2 (step_of_next hn)).2 hok, hI.2.step (step_of_next hn)⟩
  refine ⟨halive.2.noLateWrite_iff_pushesAlive.2 halive.1, fun a s' hn => ?_⟩
  rw [(halive.2.step (step_of_next hn)).noLateWrite_iff_pushesAlive]
  exact halive.1.step_iff halive.2 (step_of_next hn)

/-- The node disconnects after its stream was looked up: the handler returns, and the push goes on
to write on the stream. -/
theorem lateWrite_disconnect :
    ∃ s s', machine.Reachable s ∧ machine.next s (.write 0) = some s' ∧
      (∃ command, (0, command) ∈ s.writes (.write 0)) ∧ s.handlers[0]? = some .returned ∧
      ¬ NoLateWrite s := by
  have heval : (machine.exec new [.openStream, .read 0 (text "n"), .register 0,
      .lookup (text "n") (ReplayLoop.emptyTable (text "n")), .readFails 0, .unregister 0,
      .leave 0]).any (fun s => decide (s.handlers[0]? = some .returned ∧ s.writes (.write 0) =
        [(0, .fullTable (ReplayLoop.emptyTable (text "n")))] ∧ 0 < s.pushes.length)) = true := by
    decide +kernel
  obtain ⟨s, hs, hall⟩ := (Option.any_eq_true _ _).1 heval
  obtain ⟨hret, hwrites, hlen⟩ := of_decide_eq_true hall
  obtain ⟨s', hnext⟩ : ∃ s', machine.next s (.write 0) = some s' := ⟨_, if_pos hlen⟩
  refine ⟨s, s', Machine.reachable_of_exec rfl hs, hnext, ⟨_, hwrites ▸ List.mem_singleton_self _⟩,
    hret, fun h => ?_⟩
  exact h _ _ hnext _ (hwrites ▸ List.mem_singleton_self _) hret

/-- While the stream is looked up the node is connected. -/
theorem noLateWrite_iff_connected :
    ∃ s, machine.ReachableIf ReturnsUnused s ∧ s.pushes.length = 1 ∧
      (NoLateWrite s ∧
        ∀ a s', machine.next s a = some s' → (NoLateWrite s' ↔ ReturnsUnused s a)) := by
  have heval : (machine.exec new [.openStream, .read 0 (text "n"), .register 0,
      .lookup (text "n") (ReplayLoop.emptyTable (text "n"))]).any
      (fun s => decide (s.pushes.length = 1)) = true := by decide +kernel
  obtain ⟨s, hs, hall⟩ := (Option.any_eq_true _ _).1 heval
  have hreach : machine.ReachableIf ReturnsUnused s := by
    refine ⟨new, rfl, Machine.leads_of_exec ?_ hs⟩
    simp only [List.mem_cons, List.not_mem_nil, or_false]
    rintro a (rfl | rfl | rfl | rfl) s <;> trivial
  exact ⟨s, hreach, of_decide_eq_true hall, noLateWrite_iff s hreach⟩

/-! ### What the replay loop sees -/

/-- The commands on a stream. -/
def commandsOn (s : OrchestratorService) (stream : ℕ) : List ControlCommand :=
  (s.written.filter (·.1 = stream)).map (·.2)

/-- The registered streams with their commands. -/
def view (s : OrchestratorService) : ConnectedNodes :=
  s.connectedNodes.map fun _ stream => s.commandsOn stream

/-- The action touches neither the registry nor a stream. -/
def Action.isLocal : Action → Bool
  | .register _ | .unregister _ | .write _ | .broadcastRecoverySignal _ _ => false
  | _ => true

/-- What the actions do to the registered streams, by the operations of `Orchestrator.machine`. -/
inductive ViewStep (s : OrchestratorService) : Action → ConnectedNodes → Prop
  | connect {stream : ℕ} {nodeId : Text} (h : s.handlers[stream]? = some (.registering nodeId)) :
    ViewStep s (.register stream) (s.view.insert nodeId [])
  | disconnect {stream : ℕ} {nodeId : Text} (h : s.handlers[stream]? = some (.closing nodeId)) :
    ViewStep s (.unregister stream) (s.view.erase nodeId)
  | push {i stream : ℕ} {nodeId : Text} {table : HierarchicalScheduleTable}
      (h : s.pushes[i]? = some (stream, table))
      (hreg : s.connectedNodes[nodeId]? = some stream) :
    ViewStep s (.write i) (s.view.pushFullTable nodeId table).1
  /-- The stream was taken out of the registry after it was looked up. -/
  | late {i stream : ℕ} {table : HierarchicalScheduleTable}
      (h : s.pushes[i]? = some (stream, table))
      (hreg : ∀ nodeId : Text, s.connectedNodes[nodeId]? ≠ some stream) :
    ViewStep s (.write i) s.view
  | broadcast (workloadId : Text) (action : RecoveryAction) :
    ViewStep s (.broadcastRecoverySignal workloadId action)
      (s.view.broadcastRecoverySignal workloadId action).1
  | stay {a : Action} (h : a.isLocal = true) : ViewStep s a s.view

/-- The stream has named its node. -/
def Named (s : OrchestratorService) (stream : ℕ) : Prop :=
  ∃ h, s.handlers[stream]? = some h ∧ h ≠ .reading [] ∧ ∀ nodeId, h ≠ .registering nodeId

/-- Commands go to streams that have named their node. -/
structure Addressed (s : OrchestratorService) : Prop where
  pushes : ∀ p ∈ s.pushes, s.Named p.1
  written : ∀ w ∈ s.written, s.Named w.1

section View

variable {s s' : OrchestratorService} {a : Action} {stream : ℕ}

theorem Inv.named_of_registered (hinv : Inv s) {nodeId : Text}
    (h : s.connectedNodes[nodeId]? = some stream) : s.Named stream := by
  have hne := (hinv.named nodeId stream (hinv.lastNamed nodeId stream h)).1
  rcases hinv.registered nodeId stream h with h | h
  · exact ⟨_, h, by simpa using hne, by simp⟩
  · exact ⟨_, h, by simp, by simp⟩

theorem Named.step (hinv : Inv s) (h : s.Named stream) (hstep : Step s a s') : s'.Named stream := by
  have hset : ∀ {i old new}, s.handlers[i]? = some old →
      (new ≠ .reading [] ∧ ∀ nodeId, new ≠ .registering nodeId) ∨ i ≠ stream →
      (s.setHandler i new).Named stream := by
    intro i old new hold hnew
    by_cases hi : stream = i
    · exact ⟨new, by rw [getElem?_setHandler hold, if_pos hi],
        hnew.resolve_right (· hi.symm)⟩
    · obtain ⟨h, hh, hne⟩ := h
      exact ⟨h, by rw [getElem?_setHandler hold, if_neg hi, hh], hne⟩
  cases hstep with
  | openStream =>
    obtain ⟨h, hh, hne⟩ := h
    exact ⟨h, by rw [List.getElem?_append_left (List.getElem?_eq_some_iff.1 hh).1, hh], hne⟩
  | readName hold =>
    refine hset hold (Or.inr ?_)
    rintro rfl
    obtain ⟨h, hh, hne, -⟩ := h
    exact hne (Option.some.inj (hh.symm.trans hold))
  | register hold =>
    exact hset hold (Or.inl ⟨by simpa using hinv.registering _ _ hold, by simp⟩)
  | readFailsUnnamed hold => exact hset hold (Or.inl (by simp))
  | readFails hold => exact hset hold (Or.inl (by simp))
  | unregister hold => exact hset hold (Or.inl (by simp))
  | leave hold => exact hset hold (Or.inl (by simp))
  | _ => exact h

theorem Addressed.step (h : Addressed s) (hinv : Inv s) (hstep : Step s a s') : Addressed s' := by
  have hold : ∀ {i}, s.Named i → s'.Named i := fun hi => hi.step hinv hstep
  have hkeep : s'.pushes = s.pushes → s'.written = s.written → Addressed s' := fun hp hw =>
    ⟨fun p hp' => hold (h.pushes p (hp ▸ hp')), fun w hw' => hold (h.written w (hw ▸ hw'))⟩
  cases hstep with
  | lookup hreg =>
    refine ⟨fun p hp => ?_, h.written⟩
    rcases List.mem_append.1 hp with hp | hp
    · exact h.pushes p hp
    · rw [List.mem_singleton.1 hp]
      exact hinv.named_of_registered hreg
  | @write i hi =>
    refine ⟨fun p hp => h.pushes p (List.mem_of_mem_eraseIdx hp), fun w hw => ?_⟩
    rcases List.mem_append.1 hw with hw | hw
    · exact h.written w hw
    · simp only [writes, List.getElem?_eq_getElem hi, Option.map_some, Option.toList_some,
        List.mem_singleton] at hw
      rw [hw]
      exact h.pushes _ (List.getElem_mem hi)
  | broadcast =>
    refine ⟨h.pushes, fun w hw => ?_⟩
    rcases List.mem_append.1 hw with hw | hw
    · exact h.written w hw
    · obtain ⟨⟨nodeId, i⟩, hmem, rfl⟩ := List.mem_map.1 hw
      exact hinv.named_of_registered (Std.ExtTreeMap.mem_toList_iff_getElem?_eq_some.1 hmem)
  | _ => exact hkeep rfl rfl

theorem getElem?_view (nodeId : Text) :
    s.view[nodeId]? = s.connectedNodes[nodeId]?.map s.commandsOn := by
  rw [view, Std.ExtTreeMap.getElem?_map]

theorem getElem?_view_written (pushes : List (ℕ × HierarchicalScheduleTable))
    (ws : List (ℕ × ControlCommand)) (nodeId : Text) :
    (view { s with pushes := pushes, written := s.written ++ ws })[nodeId]? =
      s.connectedNodes[nodeId]?.map fun stream =>
        s.commandsOn stream ++ (ws.filter (·.1 = stream)).map (·.2) := by
  rw [getElem?_view]
  refine congrArg (fun f => s.connectedNodes[nodeId]?.map f) (funext fun stream => ?_)
  rw [commandsOn, List.filter_append, List.map_append, commandsOn]

theorem commandsOn_eq_nil (h : Addressed s) (hnot : ¬ s.Named stream) : s.commandsOn stream = [] := by
  rw [commandsOn, List.map_eq_nil_iff, List.filter_eq_nil_iff]
  intro w hw heq
  exact hnot (of_decide_eq_true heq ▸ h.written w hw)

theorem Inv.nodeId_eq (hinv : Inv s) {nodeId nodeId' : Text}
    (h : s.connectedNodes[nodeId]? = some stream) (h' : s.connectedNodes[nodeId']? = some stream) :
    nodeId = nodeId' := by
  rcases hinv.registered nodeId stream h with h | h <;>
    rcases hinv.registered nodeId' stream h' with h' | h' <;>
    cases h.symm.trans h' <;> rfl

theorem Inv.filter_broadcast (hinv : Inv s) {nodeId : Text}
    (h : s.connectedNodes[nodeId]? = some stream) :
    s.connectedNodes.toList.filter (fun p => p.2 = stream) = [(nodeId, stream)] := by
  have hnodup : s.connectedNodes.toList.Nodup := by
    refine Std.ExtTreeMap.distinct_keys_toList.imp ?_
    rintro p _ hne rfl
    exact hne Std.ReflCmp.compare_self
  refine List.perm_singleton.1 ((List.perm_ext_iff_of_nodup (hnodup.filter _)
    (List.nodup_singleton _)).2 ?_)
  rintro ⟨nodeId', stream'⟩
  rw [List.mem_filter, Std.ExtTreeMap.mem_toList_iff_getElem?_eq_some, List.mem_singleton,
    Prod.mk.injEq, decide_eq_true_eq]
  constructor
  · rintro ⟨h', rfl⟩
    exact ⟨hinv.nodeId_eq h' h, rfl⟩
  · rintro ⟨rfl, rfl⟩
    exact ⟨h, rfl⟩

theorem Inv.view_write (hinv : Inv s) {nodeId : Text} {table : HierarchicalScheduleTable}
    {pushes : List (ℕ × HierarchicalScheduleTable)} (h : s.connectedNodes[nodeId]? = some stream) :
    view { s with pushes := pushes, written := s.written ++ [(stream, .fullTable table)] } =
      (s.view.pushFullTable nodeId table).1 := by
  refine Std.ExtTreeMap.ext_getElem? fun id => ?_
  rw [getElem?_view_written, ConnectedNodes.pushFullTable, getElem?_view, h, Option.map_some]
  dsimp only
  rw [Std.ExtTreeMap.getElem?_insert, getElem?_view]
  split_ifs with heq
  · obtain rfl := Std.LawfulEqCmp.eq_of_compare heq
    simp [h]
  · -- the streams of the other names are other streams
    refine Option.map_congr fun other hother => ?_
    have hne : stream ≠ other := by
      rintro rfl
      exact heq (hinv.nodeId_eq h hother ▸ Std.ReflCmp.compare_self)
    simp [hne]

theorem view_write_unregistered {command : ControlCommand}
    {pushes : List (ℕ × HierarchicalScheduleTable)}
    (h : ∀ nodeId : Text, ¬ s.connectedNodes[nodeId]? = some stream) :
    view { s with pushes := pushes, written := s.written ++ [(stream, command)] } = s.view := by
  refine Std.ExtTreeMap.ext_getElem? fun id => ?_
  rw [getElem?_view_written, getElem?_view]
  refine Option.map_congr fun other hother => ?_
  have hne : stream ≠ other := fun heq => h id (heq ▸ hother)
  simp [hne]

theorem Inv.view_broadcast (hinv : Inv s) {workloadId : Text} {action : RecoveryAction} :
    view { s with
      written := s.written ++ s.writes (.broadcastRecoverySignal workloadId action) } =
      (s.view.broadcastRecoverySignal workloadId action).1 := by
  refine Std.ExtTreeMap.ext_getElem? fun id => ?_
  rw [getElem?_view_written, ConnectedNodes.broadcastRecoverySignal,
    Std.ExtTreeMap.getElem?_map, getElem?_view, Option.map_map]
  refine Option.map_congr fun stream h => ?_
  have hfilter := hinv.filter_broadcast h
  simp only [writes, List.filter_map, Function.comp_def, hfilter, List.map_cons, List.map_nil]

/-- **The streams are what the replay loop works with**: every step of a handler or a writer does to
the registered streams what the operation of the loop on the connected nodes does, or nothing.  A new
stream is empty, and a push takes effect when it writes, if the stream is still registered. -/
theorem viewStep_of_next (h : machine.Reachable s) (hn : machine.next s a = some s') :
    ViewStep s a s'.view := by
  have hinv := inv_of_reachableIf h
  have haddr : Addressed s := by
    refine (h.invariant (I := fun s => Addressed s ∧ Inv s) ?_ fun s a s' hI _ hn => ?_).1
    · rintro _ rfl
      exact ⟨⟨by simp [new], by simp [new]⟩, inv_new⟩
    · exact ⟨hI.1.step hI.2 (step_of_next hn), hI.2.step (step_of_next hn)⟩
  cases step_of_next hn with
  | @register stream nodeId hold =>
    -- nothing is written on a stream before it is registered
    have hnil : s.commandsOn stream = [] := commandsOn_eq_nil haddr (by simp [Named, hold])
    have hview : view { s.setHandler stream (.reading nodeId) with
        connectedNodes := s.connectedNodes.insert nodeId stream
        lastNamed := s.lastNamed.insert nodeId stream } = s.view.insert nodeId [] := by
      refine Std.ExtTreeMap.ext_getElem? fun id => ?_
      rw [getElem?_view, Std.ExtTreeMap.getElem?_insert, Std.ExtTreeMap.getElem?_insert,
        getElem?_view]
      split_ifs
      · exact congrArg some hnil
      · rfl
    rw [hview]
    exact .connect hold
  | @unregister stream nodeId hold =>
    have hview : view { s.setHandler stream .leaving with
        connectedNodes := s.connectedNodes.erase nodeId } = s.view.erase nodeId := by
      refine Std.ExtTreeMap.ext_getElem? fun id => ?_
      rw [getElem?_view, Std.ExtTreeMap.getElem?_erase, Std.ExtTreeMap.getElem?_erase,
        getElem?_view]
      split_ifs <;> rfl
    rw [hview]
    exact .disconnect hold
  | @write i hi =>
    have hwrites : s.writes (.write i) =
        [((s.pushes.get ⟨i, hi⟩).1, .fullTable (s.pushes.get ⟨i, hi⟩).2)] := by
      simp [writes, List.getElem?_eq_getElem hi]
    have hpush : s.pushes[i]? = some (s.pushes.get ⟨i, hi⟩) := List.getElem?_eq_getElem hi
    rw [hwrites]
    by_cases hreg : ∃ nodeId : Text, s.connectedNodes[nodeId]? = some (s.pushes.get ⟨i, hi⟩).1
    · obtain ⟨nodeId, hreg⟩ := hreg
      rw [hinv.view_write hreg]
      exact .push hpush hreg
    · -- the name has been taken out meanwhile
      rw [view_write_unregistered (not_exists.1 hreg)]
      exact .late hpush (not_exists.1 hreg)
  | @broadcast workloadId action =>
    rw [hinv.view_broadcast]
    exact .broadcast workloadId action
  | _ => exact .stay rfl

/-- A push that was looked up is written after its node has disconnected. -/
theorem viewStep_late : ∃ s s', machine.Reachable s ∧ machine.next s (.write 0) = some s' ∧
    s.pushes.length = 1 ∧ s.view.keys = [] ∧ ViewStep s (.write 0) s'.view := by
  have heval : (machine.exec new [.openStream, .read 0 (text "n"), .register 0,
      .lookup (text "n") (ReplayLoop.emptyTable (text "n")), .readFails 0, .unregister 0]).any
      (fun s => decide (s.pushes.length = 1 ∧ s.view.keys = [])) = true := by decide +kernel
  obtain ⟨s, hs, hall⟩ := (Option.any_eq_true _ _).1 heval
  obtain ⟨hlen, hkeys⟩ := of_decide_eq_true hall
  have hreach : machine.Reachable s := Machine.reachable_of_exec rfl hs
  have hnext : machine.next s (.write 0) = some _ := if_pos (hlen ▸ Nat.zero_lt_one)
  exact ⟨s, _, hreach, hnext, hlen, hkeys, viewStep_of_next hreach hnext⟩

end View

end OrchestratorService

end Timpani
