import Timpani.Barrier.Wakeup

/-!
# All nodes start or none does

When one call of `sync_timer` succeeds, every other active node of the workload should have a call
by then that has succeeded or waits, and never fails.

* `allOrNothing_of_orderly` : this is so in every run in which the set is completed only while the
  other nodes wait, no call of a released workload runs into its timeout before an earlier call of its
  node has succeeded, and a status is overwritten only when nobody or everybody has been told;
* `not_allOrNothing_after_timeout` : a node that gave up still counts as synced, so the next one is
  told to start alone.
-/

namespace Timpani

/-- The call waits, or is about to read what it has been waiting for. -/
def SyncPhase.pending : SyncPhase → Bool
  | .reading => true
  | .waiting => true
  | _ => false

/-- The call has returned an error. -/
def SyncPhase.failed : SyncPhase → Bool
  | .returned (.error _) => true
  | _ => false

def SyncPhase.isReturned : SyncPhase → Bool
  | .returned _ => true
  | _ => false

/-- A start time is published. -/
def WorkloadState.released {τ : Type} (ws : WorkloadState τ) : Bool :=
  match ws.status with
  | .released _ _ => true
  | _ => false

namespace Barrier

variable {τ : Type} {b b' : Barrier τ} {a : Action τ} {secs w i : ℕ} {n : Text} {c c' : SyncCall}
  {ws ws' : WorkloadState τ} {p : SyncPhase → Bool}

/-- Some call of the node under the workload is in a phase of a kind. -/
def HasCall (b : Barrier τ) (w : ℕ) (n : Text) (p : SyncPhase → Bool) : Prop :=
  ∃ (i : ℕ) (c : SyncCall),
    b.calls[i]? = some c ∧ c.workload = w ∧ c.node = n ∧ p c.phase = true

/-- Some call under the workload has succeeded. -/
def SomeStarted (b : Barrier τ) (w : ℕ) : Prop := ∃ n, b.HasCall w n SyncPhase.succeeded

/-- The node has been told to start: the first call of it that has not given up has succeeded. -/
def Told (b : Barrier τ) (w : ℕ) (n : Text) : Prop :=
  ∃ (i : ℕ) (c : SyncCall), b.calls[i]? = some c ∧ c.workload = w ∧ c.node = n ∧
    c.phase.succeeded = true ∧ ∀ j < i, ∀ c', b.calls[j]? = some c' → c'.workload = w → c'.node = n →
      c'.phase.pending = false

/-- If a call has succeeded in a run, every active node of its workload has a call by then that has
succeeded or is pending, and that never fails. -/
def AllOrNothing (σ : ℕ → Barrier τ) : Prop :=
  ∀ (i w : ℕ) (ws : WorkloadState τ), (σ i).workloads[w]? = some ws → (σ i).SomeStarted w →
    ∀ n ∈ ws.activeNodes, ∃ (d : ℕ) (c : SyncCall), (σ i).calls[d]? = some c ∧ c.workload = w ∧
      c.node = n ∧ (c.phase.succeeded || c.phase.pending) = true ∧
      ∀ (j : ℕ) (c' : SyncCall), (σ j).calls[d]? = some c' → c'.phase.failed = false

/-- If somebody has been told to start by the stored workload, everybody has. -/
def Settled (b : Barrier τ) : Prop :=
  ∀ w ws, b.stored = some (w, ws) → b.SomeStarted w → ∀ n ∈ ws.activeNodes, b.Told w n

/-- The set is completed while the other nodes wait or have been told to start; a call of a released
workload runs into its timeout only if its node has been told to start; a status is overwritten only
if nobody or everybody has been told. -/
def Orderly (b : Barrier τ) : Action τ → Prop
  | .syncTimer node _ => ∀ (w : ℕ) (ws : WorkloadState τ), b.Completes node w →
      b.workloads[w]? = some ws →
      ∀ n ∈ ws.activeNodes, n ≠ node → b.HasCall w n fun p => p.succeeded || p.pending
  | .timeout i => ∀ (c : SyncCall) (ws : WorkloadState τ), b.calls[i]? = some c →
      b.workloads[c.workload]? = some ws → ws.released = true → b.Told c.workload c.node
  | .addSchedInfo _ (some _) => b.Settled
  | .expire _ => b.Settled
  | _ => True

/-! ### Calls along a run -/

theorem exists_call_next (hn : next secs b a = some b') (hc : b.calls[i]? = some c) :
    ∃ c', b'.calls[i]? = some c' ∧ c'.workload = c.workload ∧ c'.node = c.node ∧
      (c.phase.isReturned = true → c'.phase = c.phase) := by
  obtain ⟨c', hc', hnode, hworkload, hmove⟩ := exists_move hn hc
  refine ⟨c', hc', hworkload, hnode, fun hreturned => ?_⟩
  rcases hmove with ⟨-, hsame⟩ | ⟨ws, -, hmove⟩
  · exact hsame
  · generalize c.phase = phase at *
    generalize c'.phase = phase' at *
    cases hmove <;> cases hreturned

theorem isReturned_of_succeeded {phase : SyncPhase} (h : phase.succeeded = true) :
    phase.isReturned = true := by
  unfold SyncPhase.succeeded at h
  split at h
  · rfl
  · cases h

theorem not_pending_next (hn : next secs b a = some b') (hc : b.calls[i]? = some c)
    (hc' : b'.calls[i]? = some c') (hp : c.phase.pending = false) : c'.phase.pending = false := by
  obtain ⟨d, hd, -, -, hmove⟩ := exists_move hn hc
  cases hc'.symm.trans hd
  rcases hmove with ⟨-, hsame⟩ | ⟨ws, -, hmove⟩
  · rw [hsame, hp]
  · generalize c.phase = phase at *
    generalize c'.phase = phase' at *
    cases hmove <;> first | rfl | cases hp

theorem HasCall.succeeded_next (h : b.HasCall w n SyncPhase.succeeded)
    (hn : next secs b a = some b') : b'.HasCall w n SyncPhase.succeeded := by
  obtain ⟨i, c, hc, rfl, rfl, hphase⟩ := h
  obtain ⟨c', hc', hworkload, hnode, hkeep⟩ := exists_call_next hn hc
  refine ⟨i, c', hc', hworkload, hnode, ?_⟩
  rw [hkeep (isReturned_of_succeeded hphase), hphase]

theorem Told.next (h : b.Told w n) (hn : next secs b a = some b') : b'.Told w n := by
  obtain ⟨i, c, hc, rfl, rfl, hphase, hfirst⟩ := h
  obtain ⟨c', hc', hworkload, hnode, hkeep⟩ := exists_call_next hn hc
  refine ⟨i, c', hc', hworkload, hnode, by rw [hkeep (isReturned_of_succeeded hphase), hphase], ?_⟩
  intro j hj d' hd' hw' hn'
  have hlt := (List.getElem?_eq_some_iff.1 hc).1
  obtain ⟨d, hd⟩ : ∃ d, b.calls[j]? = some d := ⟨_, List.getElem?_eq_getElem (hj.trans hlt)⟩
  obtain ⟨e, he, hworkload', hnode', -⟩ := exists_call_next hn hd
  cases hd'.symm.trans he
  exact not_pending_next hn hd hd'
    (hfirst j hj _ hd (hworkload'.symm.trans hw') (hnode'.symm.trans hn'))

theorem Told.exists_lt (h : b.Told c.workload c.node) (hc : b.calls[i]? = some c)
    (hp : c.phase.pending = true) :
    ∃ (j : ℕ) (c' : SyncCall), j < i ∧ b.calls[j]? = some c' ∧ c'.workload = c.workload ∧
      c'.node = c.node ∧ c'.phase.succeeded = true := by
  obtain ⟨j, c', hc', hw, hn, hs, hfirst⟩ := h
  rcases Nat.lt_trichotomy j i with hlt | rfl | hgt
  · exact ⟨j, c', hlt, hc', hw, hn, hs⟩
  · cases hc.symm.trans hc'
    cases hphase : c.phase <;> simp_all [SyncPhase.succeeded, SyncPhase.pending]
  · rw [hfirst i hgt c hc rfl rfl] at hp
    cases hp

theorem someStarted_cases (hn : next secs b a = some b') (h : b'.SomeStarted w) :
    b.SomeStarted w ∨
      (∃ i, a = .read i) ∧ ∃ ws, b.workloads[w]? = some ws ∧ ws.released = true := by
  obtain ⟨n, i, c', hc', rfl, rfl, hphase⟩ := h
  obtain ⟨r, hr⟩ : ∃ r, c'.phase = .returned (.ok r) := by
    unfold SyncPhase.succeeded at hphase
    split at hphase
    · next r heq => exact ⟨r, heq⟩
    · cases hphase
  rcases started_cases hn ⟨c', List.mem_of_getElem? hc', rfl, hr⟩ with
    ⟨c, hc, hworkload, hphase⟩ | ⟨hread, ws, hws, hstatus⟩
  · obtain ⟨j, hj⟩ := List.mem_iff_getElem?.1 hc
    exact Or.inl ⟨c.node, j, c, hj, hworkload, rfl, by rw [hphase]; rfl⟩
  · exact Or.inr ⟨hread, ws, hws, by rw [WorkloadState.released, hstatus]⟩

/-! ### The invariant -/

structure Inv (b : Barrier τ) : Prop extends Tracked b where
  /-- If somebody has been told to start, or can be, every active node has been told or can be. -/
  alive : ∀ (w : ℕ) (ws : WorkloadState τ), b.workloads[w]? = some ws →
    b.SomeStarted w ∨ ws.released = true →
    ∀ n ∈ ws.activeNodes, b.Told w n ∨
      ws.released = true ∧ b.HasCall w n fun p => p.succeeded || p.pending

/-- A pending call of a released workload stays pending, succeeds, or runs into its timeout. -/
theorem Inv.pending_next (h : b.Inv) (hn : next secs b a = some b') (hc : b.calls[i]? = some c)
    (hp : c.phase.pending = true) (hws : b.workloads[c.workload]? = some ws)
    (hrel : ws.released = true) :
    ∃ c', b'.calls[i]? = some c' ∧ c'.workload = c.workload ∧ c'.node = c.node ∧
      (c'.phase.pending = true ∨ c'.phase.succeeded = true ∨ a = .timeout i) := by
  obtain ⟨c', hc', hnode, hworkload, hmove⟩ := exists_move hn hc
  refine ⟨c', hc', hworkload, hnode, ?_⟩
  rcases hmove with ⟨-, hsame⟩ | ⟨vs, hvs, hmove⟩
  · exact Or.inl (hsame ▸ hp)
  · cases hws.symm.trans hvs
    have hwatch := h.watching i c hc
    generalize c.phase = phase at *
    generalize c'.phase = phase' at *
    cases hmove with
    | wait hstatus => simp [WorkloadState.released, hstatus] at hrel
    | start hstatus => exact Or.inr (Or.inl rfl)
    | abort e hstatus => rcases hstatus with hs | hs <;> simp [WorkloadState.released, hs] at hrel
    | wake => exact Or.inl rfl
    | closed e hclosed =>
      -- it would have seen the last status, which is not `waiting`
      obtain ⟨vs, hvs, hsaw⟩ := hwatch rfl
      cases hws.symm.trans hvs
      have hstatus : ws.status = .waiting := hsaw.value_of_closed hclosed
      simp [WorkloadState.released, hstatus] at hrel
    | timeout => exact Or.inr (Or.inr rfl)
    | expire e => cases hp

theorem Inv.alive_next (h : b.Inv) (hok : b.Orderly a) (hn : next secs b a = some b')
    (hws' : b'.workloads[w]? = some ws') (hlive : b'.SomeStarted w ∨ ws'.released = true)
    (hmem : n ∈ ws'.activeNodes) :
    b'.Told w n ∨
      ws'.released = true ∧ b'.HasCall w n fun p => p.succeeded || p.pending := by
  cases hws : b.workloads[w]? with
  | none =>
    -- nobody has called under a workload that has just been stored
    have hstatus := waiting_of_new hn hws' hws
    rcases hlive with hstarted | hrel
    · rcases someStarted_cases hn hstarted with ⟨m, i, c, hc, rfl, -⟩ | ⟨-, ws, hws₂, -⟩
      · exact absurd (h.known i c hc) (Nat.not_lt.2 (List.getElem?_eq_none_iff.1 hws))
      · rw [hws] at hws₂
        cases hws₂
    · simp [WorkloadState.released, hstatus] at hrel
  | some ws =>
    obtain ⟨vs, hvs, hactive, hstep⟩ := exists_channelStep hn hws
    cases hws'.symm.trans hvs
    rw [hactive] at hmem
    rcases hstep.value_cases with hsame | ⟨node, now, rfl, hcompletes, hcalls, hvalue⟩ | ⟨hw, hover⟩
    · have hrel : ws'.released = ws.released := by
        unfold WorkloadState.released WorkloadState.status
        rw [hsame]
      have hlive : b.SomeStarted w ∨ ws.released = true := by
        rcases hlive with hstarted | hlive
        · rcases someStarted_cases hn hstarted with hstarted | ⟨-, vs, hvs, hrel⟩
          · exact Or.inl hstarted
          · cases hws.symm.trans hvs
            exact Or.inr hrel
        · exact Or.inr (hrel ▸ hlive)
      rw [hrel]
      rcases h.alive w ws hws hlive n hmem with htold | ⟨hreleased, i, c, hc, rfl, rfl, hphase⟩
      · exact Or.inl (htold.next hn)
      · rcases Bool.or_eq_true_iff.1 hphase with hs | hp
        · obtain ⟨c', hc', hworkload, hnode, hkeep⟩ := exists_call_next hn hc
          refine Or.inr ⟨hreleased, i, c', hc', hworkload, hnode, ?_⟩
          rw [hkeep (isReturned_of_succeeded hs), hphase]
        · obtain ⟨c', hc', hworkload, hnode, hp' | hs' | rfl⟩ :=
            h.pending_next hn hc hp hws hreleased
          · exact Or.inr ⟨hreleased, i, c', hc', hworkload, hnode, by simp [hp']⟩
          · exact Or.inr ⟨hreleased, i, c', hc', hworkload, hnode, by simp [hs']⟩
          · exact Or.inl ((hok c ws hc hws hreleased).next hn)
    · -- the set has been completed: the others wait or have been told
      have hrel : ws'.released = true := by
        unfold WorkloadState.released WorkloadState.status
        rw [hvalue]
        rfl
      by_cases hnode : n = node
      · subst hnode
        exact Or.inr ⟨hrel, b.calls.length, ⟨n, w, .reading⟩, by simp [hcalls], rfl, rfl, rfl⟩
      · obtain ⟨i, c, hc, rfl, rfl, hphase⟩ := hok w ws hcompletes hws n hmem hnode
        have hc' : b'.calls[i]? = some c := by
          rw [hcalls, List.getElem?_append_left (List.getElem?_eq_some_iff.1 hc).1, hc]
        exact Or.inr ⟨hrel, i, c, hc', rfl, rfl, hphase⟩
    · -- the status has been overwritten: everybody has been told
      have hrel : ws'.released = false := by
        unfold WorkloadState.released WorkloadState.status
        rcases hover with ⟨-, hvalue⟩ | ⟨-, hvalue⟩ <;> rw [hvalue]
      have hsettled : b.Settled := by
        rcases hover with ⟨⟨_, _, rfl⟩, -⟩ | ⟨⟨_, rfl⟩, -⟩ <;> exact hok
      have hstarted : b.SomeStarted w := by
        rcases hlive with hstarted | hlive
        · rcases someStarted_cases hn hstarted with hstarted | ⟨⟨i, rfl⟩, -⟩
          · exact hstarted
          · rcases hover with ⟨⟨_, _, ha⟩, -⟩ | ⟨⟨_, ha⟩, -⟩ <;> cases ha
        · rw [hrel] at hlive
          cases hlive
      exact Or.inl ((hsettled w ws (stored_eq_some.2 ⟨hw, hws⟩) hstarted n hmem).next hn)

theorem inv_of_reachable (h : (machine τ secs).ReachableIf Orderly b) : b.Inv := by
  refine h.invariant (fun b hinit => ⟨tracked_of_init hinit, fun w ws hws => ?_⟩)
    fun b a b' hb hok hn => ⟨hb.toTracked.next hn, fun w ws' hws' hlive n hmem =>
      hb.alive_next hok hn hws' hlive hmem⟩
  simp [hinit.1] at hws

/-! ### Runs -/

section Runs

variable {ok : Barrier τ → Action τ → Prop} {σ : ℕ → Barrier τ} {j k d : ℕ}

theorem exists_call_of_le (h : (machine τ secs).RunIf ok σ) (hjk : j ≤ k)
    (hc : (σ j).calls[d]? = some c) :
    ∃ c', (σ k).calls[d]? = some c' ∧ c'.workload = c.workload ∧ c'.node = c.node ∧
      (c.phase.isReturned = true → c'.phase = c.phase) := by
  refine (h.leads hjk).invariant (I := fun b : Barrier τ => ∃ c', b.calls[d]? = some c' ∧
    c'.workload = c.workload ∧ c'.node = c.node ∧ (c.phase.isReturned = true → c'.phase = c.phase))
    ⟨c, hc, rfl, rfl, fun _ => rfl⟩ ?_
  rintro b a b' ⟨c₁, hc₁, hworkload, hnode, hkeep⟩ - hn
  obtain ⟨c₂, hc₂, hworkload₂, hnode₂, hkeep₂⟩ := exists_call_next hn hc₁
  refine ⟨c₂, hc₂, hworkload₂.trans hworkload, hnode₂.trans hnode, fun hreturned => ?_⟩
  have hsame := hkeep hreturned
  rw [hkeep₂ (hsame ▸ hreturned), hsame]

theorem isReturned_of_failed {phase : SyncPhase} (h : phase.failed = true) :
    phase.isReturned = true := by
  unfold SyncPhase.failed at h
  split at h
  · rfl
  · cases h

theorem not_failed_of_succeeded {phase : SyncPhase} (h : phase.succeeded = true) :
    phase.failed = false := by
  unfold SyncPhase.succeeded at h
  split at h
  · rfl
  · cases h

theorem not_failed_of_le (h : (machine τ secs).RunIf ok σ) (hjk : j ≤ k)
    (hc : (σ j).calls[d]? = some c) (hc' : (σ k).calls[d]? = some c')
    (hp : c'.phase.failed = false) : c.phase.failed = false := by
  by_contra hfailed
  have hfailed := Bool.eq_true_of_not_eq_false hfailed
  obtain ⟨e, he, -, -, hkeep⟩ := exists_call_of_le h hjk hc
  cases hc'.symm.trans he
  rw [hkeep (isReturned_of_failed hfailed), hfailed] at hp
  cases hp

theorem never_failed_of_succeeded (h : (machine τ secs).RunIf ok σ)
    (hc : (σ j).calls[d]? = some c) (hs : c.phase.succeeded = true) (hc' : (σ k).calls[d]? = some c') :
    c'.phase.failed = false := by
  rcases Nat.le_total j k with hjk | hkj
  · obtain ⟨e, he, -, -, hkeep⟩ := exists_call_of_le h hjk hc
    cases hc'.symm.trans he
    rw [hkeep (isReturned_of_succeeded hs)]
    exact not_failed_of_succeeded hs
  · exact not_failed_of_le h hkj hc' hc (not_failed_of_succeeded hs)

/-- A workload keeps its active nodes along a run, and once somebody has started this is so for
good. -/
theorem exists_workload_of_le (h : (machine τ secs).RunIf ok σ) (hjk : j ≤ k)
    (hws : (σ j).workloads[w]? = some ws) (hstarted : (σ j).SomeStarted w) :
    (σ k).SomeStarted w ∧
      ∃ ws', (σ k).workloads[w]? = some ws' ∧ ws'.activeNodes = ws.activeNodes := by
  refine (h.leads hjk).invariant (I := fun b : Barrier τ => b.SomeStarted w ∧
    ∃ ws', b.workloads[w]? = some ws' ∧ ws'.activeNodes = ws.activeNodes)
    ⟨hstarted, ws, hws, rfl⟩ ?_
  rintro b a b' ⟨⟨m, hm⟩, vs, hvs, hactive⟩ - hn
  obtain ⟨vs', hvs', hactive', -⟩ := exists_channelStep hn hvs
  exact ⟨⟨m, hm.succeeded_next hn⟩, vs', hvs', hactive'.trans hactive⟩

theorem pending_of_le (h : (machine τ secs).RunIf ok σ) (hjk : j ≤ k)
    (hc : (σ j).calls[d]? = some c) (hc' : (σ k).calls[d]? = some c')
    (hs : c'.phase.succeeded = true) : (c.phase.succeeded || c.phase.pending) = true := by
  by_contra hnot
  rw [Bool.not_eq_true] at hnot
  obtain ⟨e, he, hstill⟩ : ∃ e, (σ k).calls[d]? = some e ∧
      (e.phase.succeeded || e.phase.pending) = false := by
    refine (h.leads hjk).invariant (I := fun b : Barrier τ => ∃ e, b.calls[d]? = some e ∧
      (e.phase.succeeded || e.phase.pending) = false) ⟨c, hc, hnot⟩ ?_
    rintro b a b' ⟨e, he, hphase⟩ - hn
    obtain ⟨e', he', -, -, hmove⟩ := exists_move hn he
    refine ⟨e', he', ?_⟩
    rcases hmove with ⟨-, hsame⟩ | ⟨ws, -, hmove⟩
    · rw [hsame, hphase]
    · generalize e.phase = phase at *
      generalize e'.phase = phase' at *
      cases hmove <;> first | rfl | cases hphase
  cases hc'.symm.trans he
  rw [hs] at hstill
  cases hstill

/-- What becomes of a pending call once somebody has started: it waits, it succeeds, or an earlier
call of its node has succeeded. -/
theorem fate_of_pending (h : (machine τ secs).RunIf Orderly σ) (hjk : j ≤ k)
    (hws : (σ j).workloads[c.workload]? = some ws) (hmem : c.node ∈ ws.activeNodes)
    (hstarted : (σ j).SomeStarted c.workload) (hc : (σ j).calls[d]? = some c)
    (hp : c.phase.pending = true) :
    ∃ (e : ℕ) (c' : SyncCall), (σ k).calls[e]? = some c' ∧ c'.workload = c.workload ∧
      c'.node = c.node ∧ (c'.phase.succeeded = true ∧ e ≤ d ∨ c'.phase.pending = true ∧ e = d) := by
  induction hjk with
  | refl => exact ⟨d, c, hc, rfl, rfl, Or.inr ⟨hp, rfl⟩⟩
  | @step k hjk ih =>
    obtain ⟨e, c', hc', hw', hn', ⟨hs', hle⟩ | ⟨hp', rfl⟩⟩ := ih
    · obtain ⟨c₂, hc₂, hw₂, hn₂, hkeep⟩ := exists_call_of_le h (Nat.le_succ k) hc'
      exact ⟨e, c₂, hc₂, hw₂.trans hw', hn₂.trans hn',
        Or.inl ⟨by rw [hkeep (isReturned_of_succeeded hs'), hs'], hle⟩⟩
    · rcases h.2 k with ⟨a, hok, hn⟩ | heq
      · have hinv := inv_of_reachable (h.reachableIf k)
        obtain ⟨hstarted', ws', hws', hactive⟩ := exists_workload_of_le h hjk hws hstarted
        rw [← hw'] at hws' hstarted'
        -- if the node has been told, then by an earlier call
        have htold : (σ k).Told c'.workload c'.node → ∃ (i : ℕ) (c₂ : SyncCall),
            (σ (k + 1)).calls[i]? = some c₂ ∧ c₂.workload = c.workload ∧ c₂.node = c.node ∧
              (c₂.phase.succeeded = true ∧ i ≤ e ∨ c₂.phase.pending = true ∧ i = e) := by
          intro htold
          obtain ⟨i, c₁, hlt, hc₁, hw₁, hn₁, hs₁⟩ := htold.exists_lt hc' hp'
          obtain ⟨c₂, hc₂, hw₂, hn₂, hkeep⟩ := exists_call_next hn hc₁
          refine ⟨i, c₂, hc₂, hw₂.trans (hw₁.trans hw'), hn₂.trans (hn₁.trans hn'), Or.inl ⟨?_, hlt.le⟩⟩
          rw [hkeep (isReturned_of_succeeded hs₁), hs₁]
        rcases hinv.alive _ ws' hws' (Or.inl hstarted') c'.node (hactive ▸ hn' ▸ hmem) with
          hnode | ⟨hrel, -⟩
        · exact htold hnode
        · obtain ⟨c₂, hc₂, hw₂, hn₂, hp₂ | hs₂ | rfl⟩ := hinv.pending_next hn hc' hp' hws' hrel
          · exact ⟨e, c₂, hc₂, hw₂.trans hw', hn₂.trans hn', Or.inr ⟨hp₂, rfl⟩⟩
          · exact ⟨e, c₂, hc₂, hw₂.trans hw', hn₂.trans hn', Or.inl ⟨hs₂, le_rfl⟩⟩
          · exact htold (hok c' ws' hc' hws' hrel)
      · rw [heq]
        exact ⟨e, c', hc', hw', hn', Or.inr ⟨hp', rfl⟩⟩

/-- **All nodes start or none does**, in every run all of whose steps are orderly. -/
theorem allOrNothing_of_orderly (h : (machine τ secs).RunIf Orderly σ) : AllOrNothing σ := by
  intro i w ws hws hstarted n hmem
  -- a call that fails later gives way to an earlier one, so the index decreases
  have hfirst : ∀ (d : ℕ) (c : SyncCall), (σ i).calls[d]? = some c → c.workload = w → c.node = n →
      (c.phase.succeeded || c.phase.pending) = true →
      ∃ (d : ℕ) (c : SyncCall), (σ i).calls[d]? = some c ∧ c.workload = w ∧ c.node = n ∧
        (c.phase.succeeded || c.phase.pending) = true ∧
        ∀ (j : ℕ) (c' : SyncCall), (σ j).calls[d]? = some c' → c'.phase.failed = false := by
    intro d
    induction d using Nat.strong_induction_on with
    | _ d ih =>
      rintro c hc rfl rfl hphase
      by_cases hever : ∃ (j : ℕ) (c' : SyncCall),
          (σ j).calls[d]? = some c' ∧ c'.phase.failed = true
      · obtain ⟨j, c', hc', hfailed⟩ := hever
        rcases Bool.or_eq_true_iff.1 hphase with hs | hp
        · rw [never_failed_of_succeeded h hc hs hc'] at hfailed
          cases hfailed
        · obtain ⟨c₁, hc₁, -, -, hkeep⟩ := exists_call_of_le h (Nat.le_add_left j i) hc'
          have hfailed₁ : c₁.phase.failed = true := by
            rw [hkeep (isReturned_of_failed hfailed), hfailed]
          obtain ⟨e, c₂, hc₂, hw₂, hn₂, ⟨hs₂, hle⟩ | ⟨hp₂, rfl⟩⟩ :=
            fate_of_pending h (Nat.le_add_right i j) hws hmem hstarted hc hp
          · have hlt : e < d := by
              refine lt_of_le_of_ne hle ?_
              rintro rfl
              cases hc₁.symm.trans hc₂
              rw [not_failed_of_succeeded hs₂] at hfailed₁
              cases hfailed₁
            obtain ⟨c₃, hc₃⟩ : ∃ c₃, (σ i).calls[e]? = some c₃ :=
              ⟨_, List.getElem?_eq_getElem (hlt.trans (List.getElem?_eq_some_iff.1 hc).1)⟩
            obtain ⟨c₄, hc₄, hw₄, hn₄, -⟩ := exists_call_of_le h (Nat.le_add_right i j) hc₃
            cases hc₂.symm.trans hc₄
            exact ih e hlt _ hc₃ (hw₄.symm.trans hw₂) (hn₄.symm.trans hn₂)
              (pending_of_le h (Nat.le_add_right i j) hc₃ hc₂ hs₂)
          · cases hc₁.symm.trans hc₂
            cases hphase : c₁.phase <;> simp_all [SyncPhase.failed, SyncPhase.pending]
      · refine ⟨d, c, hc, rfl, rfl, hphase, fun j c' hc' => ?_⟩
        exact Bool.eq_false_iff.2 fun hfailed => hever ⟨j, c', hc', hfailed⟩
  rcases (inv_of_reachable (h.reachableIf i)).alive w ws hws (Or.inl hstarted) n hmem with
    htold | ⟨-, d, c, hc, hw, hn, hphase⟩
  · obtain ⟨d, c, hc, hw, hn, hs, -⟩ := htold
    exact hfirst d c hc hw hn (by simp [hs])
  · exact hfirst d c hc hw hn hphase

end Runs

/-! ### Two runs -/

/-- The set is completed only while the other nodes wait, and nothing else can go wrong. -/
def othersWait (b : Barrier Unit) : Action Unit → Bool
  | .syncTimer node _ => b.stored.all fun (w, ws) =>
      !(checkIn ws node b.calls.length).allSynced ||
        ws.activeNodes.toList.all fun n => n = node ||
          b.calls.any fun c => c.workload = w && c.node = n && c.phase.pending
  | .addSchedInfo _ _ => b.workloads.isEmpty
  | .timeout _ => false
  | .expire _ => false
  | _ => true

theorem orderly_of_othersWait (b : Barrier Unit) (a : Action Unit) (h : othersWait b a = true) :
    b.Orderly a := by
  cases a with
  | syncTimer node now =>
    rintro w ws ⟨vs, hstored, -, hall⟩ hws n hmem hne
    cases hws.symm.trans (stored_eq_some.1 hstored).2
    simp only [othersWait, hstored, Option.all_some, hall, Bool.not_true, Bool.false_or,
      List.all_eq_true, Std.ExtTreeSet.mem_toList, Bool.or_eq_true, decide_eq_true_eq,
      List.any_eq_true, Bool.and_eq_true] at h
    obtain ⟨c, hc, ⟨hw, hnode⟩, hp⟩ := (h n hmem).resolve_left hne
    obtain ⟨i, hi⟩ := List.mem_iff_getElem?.1 hc
    exact ⟨i, c, hi, hw, hnode, Bool.or_eq_true_iff.2 (Or.inr hp)⟩
  | addSchedInfo workloadId schedule =>
    cases schedule with
    | none => trivial
    | some schedule =>
      rintro w ws hstored
      have hempty : b.workloads = [] := List.isEmpty_iff.1 h
      simp [stored, hempty] at hstored
  | timeout i => cases h
  | expire i => cases h
  | _ => trivial

/-- Both nodes wait for each other and are told to start. -/
theorem allOrNothing_of_two_nodes :
    ∃ σ : ℕ → Barrier Unit, (machine Unit 30).RunIf Orderly σ ∧
      (∃ i, (σ i).HasCall 0 (text "n1") SyncPhase.succeeded ∧
        (σ i).HasCall 0 (text "n2") SyncPhase.succeeded) ∧ AllOrNothing σ := by
  have heval : ((machine Unit 30).execIf othersWait fresh
      [.addSchedInfo (text "w") (some twoNodes), .syncTimer (text "n1") 0, .read 0,
        .syncTimer (text "n2") 5000000007, .read 1, .wake 0, .read 0]).any
      (fun b => decide (b.calls = [⟨text "n1", 0, .returned (.ok ⟨true, 6, 7⟩)⟩,
        ⟨text "n2", 0, .returned (.ok ⟨true, 6, 7⟩)⟩])) = true := by
    decide +kernel
  obtain ⟨b, hb, hcalls⟩ := (Option.any_eq_true _ _).1 heval
  have hcalls := of_decide_eq_true hcalls
  have hreach : (machine Unit 30).ReachableIf Orderly b :=
    ⟨fresh, ⟨rfl, rfl⟩, Machine.leads_of_execIf orderly_of_othersWait hb⟩
  obtain ⟨σ, hσ, k, hk⟩ := hreach.exists_runIf
  refine ⟨σ, hσ, ⟨k, ?_⟩, allOrNothing_of_orderly hσ⟩
  rw [hk k le_rfl]
  exact ⟨⟨0, _, by rw [hcalls]; rfl, rfl, rfl, rfl⟩, ⟨1, _, by rw [hcalls]; rfl, rfl, rfl, rfl⟩⟩

/-- The node `n1` waits and runs into its timeout.  Then `n2` calls: both nodes count as synced, and
`n2` is told to start while the only call of `n1` has failed. -/
theorem not_allOrNothing_after_timeout :
    ∃ σ : ℕ → Barrier Unit, (machine Unit 30).RunIf (fun _ _ => True) σ ∧ ¬ AllOrNothing σ := by
  have heval : ((machine Unit 30).exec fresh
      [.addSchedInfo (text "w") (some twoNodes), .syncTimer (text "n1") 0, .read 0, .timeout 0,
        .expire 0, .syncTimer (text "n2") 31000000000, .read 1]).any
      (fun b => decide (b.calls.map (fun c => (c.node, c.workload, c.phase.failed)) =
          [(text "n1", 0, true), (text "n2", 0, false)] ∧
        b.calls.map (·.phase.succeeded) = [false, true] ∧
        b.workloads.map (·.activeNodes.toList) = [[text "n1", text "n2"]])) = true := by
    decide +kernel
  obtain ⟨b, hb, hall⟩ := (Option.any_eq_true _ _).1 heval
  obtain ⟨hfailed, hsucceeded, hactive⟩ := of_decide_eq_true hall
  have hreach : (machine Unit 30).Reachable b := Machine.reachable_of_exec ⟨rfl, rfl⟩ hb
  obtain ⟨σ, hσ, k, hk⟩ := hreach.exists_runIf
  refine ⟨σ, hσ, fun hall => ?_⟩
  obtain ⟨c₁, c₂, hcalls⟩ : ∃ c₁ c₂, b.calls = [c₁, c₂] :=
    List.length_eq_two.1 (by simpa using congrArg List.length hfailed)
  obtain ⟨ws, hworkloads⟩ : ∃ ws, b.workloads = [ws] :=
    List.length_eq_one_iff.1 (by simpa using congrArg List.length hactive)
  simp only [hcalls, hworkloads, List.map_cons, List.map_nil, List.cons.injEq, Prod.mk.injEq,
    and_true] at hfailed hsucceeded hactive
  obtain ⟨⟨hnode₁, hw₁, hf₁⟩, hnode₂, hw₂, -⟩ := hfailed
  have hmem : text "n1" ∈ ws.activeNodes := by
    rw [← Std.ExtTreeSet.mem_toList, hactive]
    exact List.mem_cons_self
  obtain ⟨d, c, hc, hw, hnode, -, hnever⟩ := hall k 0 ws
    (by rw [hk k le_rfl, hworkloads]; rfl)
    (by
      rw [hk k le_rfl]
      exact ⟨text "n2", 1, c₂, by rw [hcalls]; rfl, hw₂, hnode₂, hsucceeded.2⟩) _ hmem
  -- the call is the first one, which has failed
  have hnot := hnever k c hc
  rw [hk k le_rfl, hcalls] at hc
  match d, hc with
  | 0, hc =>
    cases hc
    rw [hf₁] at hnot
    cases hnot
  | 1, hc =>
    cases hc
    exact absurd (hnode.symm.trans hnode₂) (by decide)
  | d + 2, hc => cases hc

end Barrier

end Timpani
