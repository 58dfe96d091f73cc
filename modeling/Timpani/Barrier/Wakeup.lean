import Timpani.Barrier.Agreement

/-!
# No release is missed

A call of `sync_timer` that waits must be woken when the barrier of its workload is released, times
out or is cancelled.  Registering, completing the set, reading the status and going to sleep are
separate steps, and those of other calls come in between; what keeps a wake-up from being lost is
that the channel counts its versions.

* `Tracked` : a waiting call has seen `Waiting`, and the version it has seen is current or it is
  about to be woken;
* `Closing` : the channels of replaced workloads are closed, and a barrier at which somebody has
  checked in is not `Waiting` once the set is complete;
* `noneMissed` : a call that is blocked waits for a node of the stored workload.
-/

namespace Timpani

namespace Barrier

variable {τ : Type} {b b' : Barrier τ} {a : Action τ} {secs w i : ℕ} {c c' : SyncCall}
  {ws ws' : WorkloadState τ}

/-! ### What the waiting calls have seen -/

structure Tracked (b : Barrier τ) : Prop where
  known : ∀ (i : ℕ) (c : SyncCall), b.calls[i]? = some c → c.workload < b.workloads.length
  /-- A waiting call has seen that it has to wait. -/
  watching : ∀ (i : ℕ) (c : SyncCall), b.calls[i]? = some c → c.phase = .waiting →
    ∃ ws, b.workloads[c.workload]? = some ws ∧ ws.barrierTx.LastSaw i .waiting

theorem length_workloads_le (hn : next secs b a = some b') :
    b.workloads.length ≤ b'.workloads.length := by
  rcases workloads_cases hn with heq | ⟨_, _, l, -, heq, hl⟩
  · exact heq.ge
  · rw [heq, List.length_append, hl]
    exact Nat.le_add_right _ _

theorem Tracked.known_next (h : b.Tracked) (hn : next secs b a = some b')
    (hc' : b'.calls[i]? = some c') : c'.workload < b'.workloads.length := by
  refine lt_of_lt_of_le ?_ (length_workloads_le hn)
  cases hc : b.calls[i]? with
  | none =>
    obtain ⟨node, now, w, ws, -, hstored, rfl⟩ := registered_of_new hn hc' hc
    have := (stored_eq_some.1 hstored).1
    dsimp only
    omega
  | some c =>
    obtain ⟨d, hd, -, hworkload, -⟩ := exists_move hn hc
    cases hc'.symm.trans hd
    rw [hworkload]
    exact h.known i c hc

theorem Tracked.watching_next (h : b.Tracked) (hn : next secs b a = some b')
    (hc' : b'.calls[i]? = some c') (hphase : c'.phase = .waiting) :
    ∃ ws, b'.workloads[c'.workload]? = some ws ∧ ws.barrierTx.LastSaw i .waiting := by
  cases hc : b.calls[i]? with
  | none =>
    obtain ⟨node, now, w, ws, -, -, rfl⟩ := registered_of_new hn hc' hc
    cases hphase
  | some c =>
    obtain ⟨d, hd, -, hworkload, hmove⟩ := exists_move hn hc
    cases hc'.symm.trans hd
    rw [hworkload]
    rcases hmove with ⟨hcaller, hsame⟩ | ⟨ws, hws, hmove⟩
    · obtain ⟨ws, hws, hsaw⟩ := h.watching i c hc (hsame.symm.trans hphase)
      obtain ⟨ws', hws', -, hstep⟩ := exists_channelStep hn hws
      exact ⟨ws', hws', hstep.lastSaw hsaw hcaller (List.getElem?_eq_some_iff.1 hc).1⟩
    · rw [hphase] at hmove
      have hread : a = .read i ∧ ws.status = .waiting := by
        generalize c.phase = phase at hmove
        cases hmove with
        | wait hstatus => exact ⟨rfl, hstatus⟩
      obtain ⟨rfl, hstatus⟩ := hread
      obtain ⟨c₂, ws₂, hc₂, -, hws₂, rfl⟩ := next_cases hn
      cases hc.symm.trans hc₂
      cases hws.symm.trans hws₂
      rw [hstatus]
      refine ⟨ws.onBarrier (·.update i), ?_, ?_⟩
      · exact (getElem?_modify_workload hws).trans (by rw [if_pos rfl])
      · exact hstatus ▸ Watch.lastSaw_update

theorem Tracked.next (h : b.Tracked) (hn : next secs b a = some b') : b'.Tracked :=
  ⟨fun _ _ hc' => h.known_next hn hc', fun _ _ hc' hphase => h.watching_next hn hc' hphase⟩

theorem tracked_of_init (h : (machine τ secs).init b) : b.Tracked := by
  obtain ⟨-, hcalls⟩ := h
  refine ⟨fun i c hc => ?_, fun i c hc => ?_⟩ <;> simp [hcalls] at hc

/-! ### Replaced and completed workloads -/

structure Closing (b : Barrier τ) : Prop where
  /-- The sender of a replaced workload has been dropped. -/
  closed : ∀ (w : ℕ) (ws : WorkloadState τ), b.workloads[w]? = some ws →
    w + 1 < b.workloads.length → ws.barrierTx.closed = true
  /-- A barrier at which somebody has checked in is `Waiting` only while somebody is missing. -/
  incomplete : ∀ (w : ℕ) (ws : WorkloadState τ), b.workloads[w]? = some ws → ws.status = .waiting →
    (∃ c ∈ b.calls, c.workload = w) → ws.allSynced = false

theorem ChannelStep.closed {ch ch' : Watch BarrierStatus} (h : ChannelStep b b' w a ch ch')
    (hclosed : ch.closed = true) : ch'.closed = true := by
  have hsend : ∀ (ch : Watch BarrierStatus) v, (ch.send v).closed = ch.closed := by
    intro ch v
    rcases ch.send_cases v with ⟨-, h⟩ | ⟨-, h⟩ <;> rw [h]
  cases h with
  | keep | register | readUpdate | wakeUpdate | readLeave | wakeLeave | expireLeave => exact hclosed
  | release => exact (hsend _ _).trans hclosed
  | replace => rfl
  | expire => exact (hsend _ _).trans hclosed
  | expireBoth => exact (hsend _ _).trans hclosed

theorem Closing.closed_next (h : b.Closing) (hn : next secs b a = some b')
    (hws' : b'.workloads[w]? = some ws') (hw : w + 1 < b'.workloads.length) :
    ws'.barrierTx.closed = true := by
  cases hws : b.workloads[w]? with
  | none =>
    have := List.getElem?_eq_none_iff.1 hws
    rcases workloads_cases hn with heq | ⟨_, _, l, -, heq, hl⟩
    · omega
    · rw [heq, List.length_append, hl, List.length_singleton] at hw
      omega
  | some ws =>
    by_cases hold : w + 1 < b.workloads.length
    · obtain ⟨vs, hvs, -, hstep⟩ := exists_channelStep hn hws
      cases hws'.symm.trans hvs
      exact hstep.closed (h.closed w ws hws hold)
    · -- the workload was the stored one, and has just been replaced
      have hlt := (List.getElem?_eq_some_iff.1 hws).1
      rcases workloads_cases hn with heq | ⟨workloadId, schedule, l, rfl, -, -⟩
      · omega
      · obtain rfl : b' = _ := next_cases hn
        have hlast : b.workloads.length - 1 = w := by omega
        dsimp only [addSchedInfo, sendStored] at hws'
        rw [hlast, List.getElem?_append_left (by simpa using hlt),
          getElem?_modify_workload (getElem?_modify_workload hws), if_pos rfl] at hws'
        rw [← Option.some.inj hws']
        rfl

theorem modify_onBarrier {v : ℕ} {f g : Watch BarrierStatus → Watch BarrierStatus}
    {l : List (WorkloadState τ)} (h : l[w]? = some (ws.onBarrier f)) :
    ∃ f', (l.modify v (.onBarrier g))[w]? = some (ws.onBarrier f') := by
  rw [getElem?_modify_workload h]
  split_ifs
  · exact ⟨g ∘ f, rfl⟩
  · exact ⟨f, rfl⟩

theorem exists_onBarrier (hn : next secs b a = some b') (ha : ∀ node now, a ≠ .syncTimer node now)
    (hws : b.workloads[w]? = some ws) : ∃ f, b'.workloads[w]? = some (ws.onBarrier f) := by
  have hkeep : b.workloads[w]? = some (ws.onBarrier id) := hws
  cases a with
  | syncTimer node now => exact absurd rfl (ha node now)
  | addSchedInfo workloadId schedule =>
    obtain rfl : b' = _ := next_cases hn
    cases schedule with
    | none => exact ⟨id, hkeep⟩
    | some schedule =>
      obtain ⟨f, hf⟩ := modify_onBarrier (v := b.workloads.length - 1)
        (g := (·.send .cancelled)) hkeep
      obtain ⟨f', hf'⟩ := modify_onBarrier (v := b.workloads.length - 1) (g := .dropSender) hf
      refine ⟨f', ?_⟩
      dsimp only [addSchedInfo, sendStored]
      rw [List.getElem?_append_left (List.getElem?_eq_some_iff.1 hf').1, hf']
  | read i =>
    obtain ⟨c, vs, -, -, -, rfl⟩ := next_cases hn
    cases vs.status <;> exact modify_onBarrier hkeep
  | wake i =>
    obtain ⟨c, vs, changed, -, -, -, -, rfl⟩ := next_cases hn
    cases changed <;> exact modify_onBarrier hkeep
  | timeout i =>
    obtain ⟨c, vs, -, -, -, rfl⟩ := next_cases hn
    exact ⟨id, hkeep⟩
  | expire i =>
    obtain ⟨c, vs, -, -, -, rfl⟩ := next_cases hn
    obtain ⟨f, hf⟩ := modify_onBarrier (v := b.workloads.length - 1) (g := (·.send .timedOut)) hkeep
    exact modify_onBarrier hf

theorem exists_call_before (hn : next secs b a = some b') (ha : ∀ node now, a ≠ .syncTimer node now)
    (hc' : c' ∈ b'.calls) : ∃ c ∈ b.calls, c.workload = c'.workload := by
  obtain ⟨i, hi⟩ := List.mem_iff_getElem?.1 hc'
  cases hc : b.calls[i]? with
  | none =>
    obtain ⟨node, now, -, -, rfl, -⟩ := registered_of_new hn hi hc
    exact absurd rfl (ha node now)
  | some c =>
    obtain ⟨d, hd, -, hworkload, -⟩ := exists_move hn hc
    cases hi.symm.trans hd
    exact ⟨c, List.mem_of_getElem? hc, hworkload.symm⟩

theorem waiting_of_next (hn : next secs b a = some b') (hws : b.workloads[w]? = some ws)
    (hws' : b'.workloads[w]? = some ws') (hstatus' : ws'.status = .waiting) :
    ws.status = .waiting := by
  obtain ⟨vs, hvs, -, hstep⟩ := exists_channelStep hn hws
  cases hws'.symm.trans hvs
  have hvalue : ws'.barrierTx.value = .waiting := hstatus'
  rcases hstep.value_cases with hsame | ⟨_, now, -, -, -, hrel⟩ | ⟨-, ⟨-, hover⟩ | ⟨-, hover⟩⟩
  · exact hsame.symm.trans hvalue
  · cases hrel.symm.trans hvalue
  · cases hover.symm.trans hvalue
  · cases hover.symm.trans hvalue

theorem allSynced_register {node : Text} {handle now : ℕ}
    (h : (register ws node handle now).status = .waiting) :
    (register ws node handle now).allSynced = false := by
  unfold register at h ⊢
  split_ifs at h ⊢ with hall
  · have hreleased : ((checkIn ws node handle).onBarrier (·.send (releaseAt now))).status =
        releaseAt now := Watch.value_send_subscribe
    cases hreleased.symm.trans h
  · exact Bool.eq_false_iff.2 hall

theorem Closing.incomplete_next (h : b.Closing) (ht : b.Tracked) (hn : next secs b a = some b')
    (hws' : b'.workloads[w]? = some ws') (hstatus' : ws'.status = .waiting)
    (hcall : ∃ c ∈ b'.calls, c.workload = w) : ws'.allSynced = false := by
  obtain ⟨c', hc', rfl⟩ := hcall
  by_cases ha : ∃ node now, a = .syncTimer node now
  · obtain ⟨node, now, rfl⟩ := ha
    obtain ⟨-, rfl⟩ := next_cases hn
    rcases syncTimer_cases b node now with ⟨status, heq⟩ | ⟨v, vs, hstored, -, heq⟩ <;>
      simp only [heq] at hws' hc'
    · exact h.incomplete _ ws' hws' hstatus' ⟨c', hc', rfl⟩
    · obtain ⟨-, hvs⟩ := stored_eq_some.1 hstored
      by_cases hv : v = c'.workload
      · subst hv
        rw [getElem?_modify_workload hvs, if_pos rfl] at hws'
        cases hws'
        exact allSynced_register hstatus'
      · have hws : b.workloads[c'.workload]? = some ws' := by
          simpa [List.getElem?_modify, hv] using hws'
        rcases List.mem_append.1 hc' with hold | hnew
        · exact h.incomplete _ ws' hws hstatus' ⟨c', hold, rfl⟩
        · rw [List.mem_singleton.1 hnew] at hv
          exact absurd rfl hv
  · have ha : ∀ node now, a ≠ .syncTimer node now := fun node now heq => ha ⟨node, now, heq⟩
    obtain ⟨c, hc, hworkload⟩ := exists_call_before hn ha hc'
    obtain ⟨i, hi⟩ := List.mem_iff_getElem?.1 hc
    have hlt := ht.known i c hi
    rw [hworkload] at hlt
    have hws := List.getElem?_eq_getElem hlt
    obtain ⟨f, hf⟩ := exists_onBarrier hn ha hws
    have hmissing := h.incomplete _ _ hws (waiting_of_next hn hws hws' hstatus') ⟨c, hc, hworkload⟩
    cases hws'.symm.trans hf
    exact hmissing

theorem tracked_closing_of_reachable (h : (machine τ secs).Reachable b) :
    b.Tracked ∧ b.Closing := by
  refine h.invariant (I := fun b => b.Tracked ∧ b.Closing) (fun b hinit => ?_) ?_
  · refine ⟨tracked_of_init hinit, fun w ws hws => ?_, fun w ws hws => ?_⟩ <;>
      simp [hinit.1] at hws
  · rintro b a b' ⟨ht, hc⟩ - hn
    exact ⟨ht.next hn, fun _ _ hws' hw => hc.closed_next hn hws' hw,
      fun _ _ hws' hstatus' hcall => hc.incomplete_next ht hn hws' hstatus' hcall⟩

/-! ### Blocked calls -/

/-- The call is in its `select!`, and the channel has nothing for it. -/
def Blocked (b : Barrier τ) (i : ℕ) (c : SyncCall) (ws : WorkloadState τ) : Prop :=
  b.calls[i]? = some c ∧ c.phase = .waiting ∧ b.workloads[c.workload]? = some ws ∧
    ws.barrierTx.changed i = none

/-- **No release is missed.**  A call that is blocked, its timer running or not, belongs to the stored
workload, whose barrier is `Waiting` for a node that has not checked in. -/
theorem noneMissed (h : (machine τ secs).Reachable b) (hblocked : Blocked b i c ws) :
    b.stored = some (c.workload, ws) ∧ ws.status = .waiting ∧
      ∃ n ∈ ws.activeNodes, n ∉ ws.syncedNodes := by
  obtain ⟨hc, hphase, hws, hchanged⟩ := hblocked
  obtain ⟨htracked, hclosing⟩ := tracked_closing_of_reachable h
  obtain ⟨vs, hvs, seen, hseen, -, hsaw⟩ := htracked.watching i c hc hphase
  cases hws.symm.trans hvs
  rw [Watch.changed, hseen, Option.bind_some] at hchanged
  split_ifs at hchanged with hnew hclosed
  have hstatus : ws.status = .waiting := hsaw (not_not.1 hnew)
  have hlt := htracked.known i c hc
  have hlast : c.workload + 1 = b.workloads.length := by
    by_contra hne
    exact hclosed (hclosing.closed _ ws hws (by omega))
  have hmissing := hclosing.incomplete _ ws hws hstatus ⟨c, List.mem_of_getElem? hc, rfl⟩
  refine ⟨stored_eq_some.2 ⟨hlast, hws⟩, hstatus, ?_⟩
  simpa [WorkloadState.allSynced] using hmissing

/-- Node `n1` waits for `n2`. -/
theorem noneMissed_while_waiting :
    ∃ b ws, (machine Unit 30).Reachable b ∧ Blocked b 0 ⟨text "n1", 0, .waiting⟩ ws ∧
      (b.stored = some (0, ws) ∧ ws.status = .waiting ∧
        ∃ n ∈ ws.activeNodes, n ∉ ws.syncedNodes) := by
  have heval : ((machine Unit 30).exec fresh
      [.addSchedInfo (text "w") (some twoNodes), .syncTimer (text "n1") 0, .read 0]).any
      (fun b => decide (b.calls = [⟨text "n1", 0, .waiting⟩] ∧
        (b.workloads[0]?.any fun ws => ws.barrierTx.changed 0 = none) = true)) = true := by
    decide +kernel
  obtain ⟨b, hb, hall⟩ := (Option.any_eq_true _ _).1 heval
  obtain ⟨hcalls, hwatch⟩ := of_decide_eq_true hall
  obtain ⟨ws, hws, hchanged⟩ := (Option.any_eq_true _ _).1 hwatch
  have hreach : (machine Unit 30).Reachable b := Machine.reachable_of_exec ⟨rfl, rfl⟩ hb
  have hblocked : Blocked b 0 ⟨text "n1", 0, .waiting⟩ ws :=
    ⟨by rw [hcalls]; rfl, rfl, hws, of_decide_eq_true hchanged⟩
  exact ⟨b, ws, hreach, hblocked, noneMissed hreach hblocked⟩

end Barrier

end Timpani
