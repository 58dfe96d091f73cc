import Timpani.Barrier.Agreement

/-!
# Whose barrier a call may change

A call of `sync_timer` should only change the barrier of the workload it is registered under.  It
takes the lock twice: when it registers, and again when its timer has fired.  The second time the
stored workload may be another one.

* `changesOwn_iff` : a step changes the barriers of its own workload only, unless it is the end of a
  timeout under a workload that has been replaced while somebody waits under the new one;
* `not_changesOwn_after_replacement` : such a timeout ends the barrier of the new workload.
-/

namespace Timpani

namespace Barrier

variable {τ : Type} {b b' : Barrier τ} {a : Action τ} {secs w i : ℕ} {c : SyncCall}
  {ws ws' : WorkloadState τ}

/-- The step from `b` to `b'` is one of a call that is registered under the workload at `w`, or
registers one, or it replaces the workload. -/
def Owns (b b' : Barrier τ) (a : Action τ) (w : ℕ) : Prop :=
  (∃ i c, a.caller = some i ∧ b.calls[i]? = some c ∧ c.workload = w) ∨
  (∃ node now, a = .syncTimer node now ∧ b'.calls = b.calls ++ [⟨node, w, .reading⟩]) ∨
  (∃ workloadId schedule, a = .addSchedInfo workloadId (some schedule) ∧
    w + 1 = b.workloads.length)

/-- Only steps that own a workload change the status of its barrier. -/
def ChangesOwn (b b' : Barrier τ) (a : Action τ) : Prop :=
  ∀ (w : ℕ) (ws ws' : WorkloadState τ), b.workloads[w]? = some ws → b'.workloads[w]? = some ws' →
    ws'.status ≠ ws.status → Owns b b' a w

/-- When the timeout of a call under a replaced workload ends, nobody waits under the stored one, or
that has timed out as well. -/
def InTime (b : Barrier τ) : Action τ → Prop
  | .expire i => ∀ (c : SyncCall) (w : ℕ) (ws : WorkloadState τ), b.calls[i]? = some c →
      b.stored = some (w, ws) → c.workload ≠ w →
      ws.barrierTx.receivers.isEmpty = true ∨ ws.status = .timedOut
  | _ => True

theorem status_expire (hn : next secs b (.expire i) = some b') (hs : b.stored = some (w, ws))
    (hws' : b'.workloads[w]? = some ws') :
    ws'.status = if ws.barrierTx.receivers.isEmpty then ws.status else .timedOut := by
  obtain ⟨c, vs, -, -, -, rfl⟩ := next_cases hn
  obtain ⟨hw, hws⟩ := stored_eq_some.1 hs
  have hlast : b.workloads.length - 1 = w := by omega
  dsimp only [expire, finish, sendStored] at hws'
  rw [hlast, getElem?_modify_workload (getElem?_modify_workload hws), if_pos (rfl : w = w)] at hws'
  have hstatus : ws'.status = (ws.barrierTx.send .timedOut).value := by
    rw [← Option.some.inj hws']
    split_ifs <;> rfl
  rw [hstatus, Watch.send]
  split_ifs <;> rfl

/-- **A step changes the barriers of its own workload only**, unless it is a timeout that ends too
late. -/
theorem changesOwn_iff (hn : (machine τ secs).next b a = some b') :
    ChangesOwn b b' a ↔ InTime b a := by
  have hstep : next secs b a = some b' := hn
  constructor
  · intro hown
    cases a with
    | expire i =>
      intro c w ws hc hstored hne
      obtain ⟨hw, hws⟩ := stored_eq_some.1 hstored
      obtain ⟨ws', hws', -⟩ := exists_channelStep hstep hws
      have hstatus := status_expire hstep hstored hws'
      by_contra hnot
      obtain ⟨hsome, hlive⟩ := not_or.1 hnot
      rw [if_neg hsome] at hstatus
      -- the status changes, so the call would be registered under the stored workload
      have howns := hown w ws ws' hws hws' (by rw [hstatus]; exact fun h => hlive h.symm)
      rcases howns with ⟨j, d, hj, hd, hworkload⟩ | ⟨_, _, ha, -⟩ | ⟨_, _, ha, -⟩
      · cases hj
        cases hc.symm.trans hd
        exact hne hworkload
      · cases ha
      · cases ha
    | _ => trivial
  · intro hok w ws ws' hws hws' hchange
    obtain ⟨vs, hvs, -, hchannel⟩ := exists_channelStep hstep hws
    cases hws'.symm.trans hvs
    rcases hchannel.value_cases with hsame | ⟨node, now, rfl, -, hcalls, -⟩ |
        ⟨hw, ⟨⟨workloadId, schedule, rfl⟩, -⟩ | ⟨⟨i, rfl⟩, -⟩⟩
    · exact absurd hsame hchange
    · exact Or.inr (Or.inl ⟨node, now, rfl, hcalls⟩)
    · exact Or.inr (Or.inr ⟨workloadId, schedule, rfl, hw⟩)
    · obtain ⟨c, _, hc, -⟩ := next_cases hstep
      have hstored := stored_eq_some.2 ⟨hw, hws⟩
      by_cases hown : c.workload = w
      · exact Or.inl ⟨i, c, rfl, hc, hown⟩
      · have hstatus := status_expire hstep hstored hws'
        rcases hok c w ws hc hstored hown with hempty | htimedOut
        · rw [if_pos hempty] at hstatus
          exact absurd hstatus hchange
        · rw [htimedOut, ite_self] at hstatus
          exact absurd (hstatus.trans htimedOut.symm) hchange

/-- A call under the first workload runs into its timeout, the workload is replaced, and a node
checks in under the new one; then the first call gets the lock. -/
theorem not_changesOwn_after_replacement :
    ∃ b b', (machine Unit 30).Reachable b ∧ (machine Unit 30).next b (.expire 0) = some b' ∧
      b.calls = [⟨text "n1", 0, .expiring⟩, ⟨text "n1", 1, .waiting⟩] ∧
      b.workloads[1]?.map (·.status) = some .waiting ∧
      b'.workloads[1]?.map (·.status) = some .timedOut ∧ ¬ ChangesOwn b b' (.expire 0) := by
  have heval : ((machine Unit 30).exec fresh
      [.addSchedInfo (text "w") (some twoNodes), .syncTimer (text "n1") 0, .read 0, .timeout 0,
        .addSchedInfo (text "v") (some twoNodes), .syncTimer (text "n1") 1, .read 1]).any
      (fun b => decide (b.calls = [⟨text "n1", 0, .expiring⟩, ⟨text "n1", 1, .waiting⟩] ∧
        b.workloads[1]?.map (·.status) = some .waiting ∧
        ((machine Unit 30).next b (.expire 0)).any (fun b' =>
          b'.workloads[1]?.map (·.status) = some .timedOut) = true)) = true := by
    decide +kernel
  obtain ⟨b, hb, hall⟩ := (Option.any_eq_true _ _).1 heval
  obtain ⟨hcalls, hwaiting, hnext⟩ := of_decide_eq_true hall
  obtain ⟨b', hn, htimedOut⟩ := (Option.any_eq_true _ _).1 hnext
  have htimedOut := of_decide_eq_true htimedOut
  refine ⟨b, b', Machine.reachable_of_exec ⟨rfl, rfl⟩ hb, hn, hcalls, hwaiting, htimedOut,
    fun hown => ?_⟩
  obtain ⟨ws, hws, hstatus⟩ := Option.map_eq_some_iff.1 hwaiting
  obtain ⟨ws', hws', hstatus'⟩ := Option.map_eq_some_iff.1 htimedOut
  rcases hown 1 ws ws' hws hws' (by rw [hstatus, hstatus']; decide) with
    ⟨i, c, hi, hc, hworkload⟩ | ⟨_, _, ha, -⟩ | ⟨_, _, ha, -⟩
  · cases hi
    rw [hcalls] at hc
    cases hc
    cases hworkload
  · cases ha
  · cases ha

/-- The workload of a call that runs into its timeout is still stored. -/
theorem changesOwn_of_stored :
    ∃ b b', (machine Unit 30).Reachable b ∧ (machine Unit 30).next b (.expire 0) = some b' ∧
      b'.workloads[0]?.map (·.status) = some .timedOut ∧ InTime b (.expire 0) ∧
      (ChangesOwn b b' (.expire 0) ↔ InTime b (.expire 0)) := by
  have heval : ((machine Unit 30).exec fresh
      [.addSchedInfo (text "w") (some twoNodes), .syncTimer (text "n1") 0, .read 0,
        .timeout 0]).any
      (fun b => decide (b.calls = [⟨text "n1", 0, .expiring⟩] ∧ b.workloads.length = 1 ∧
        ((machine Unit 30).next b (.expire 0)).any (fun b' =>
          b'.workloads[0]?.map (·.status) = some .timedOut) = true)) = true := by
    decide +kernel
  obtain ⟨b, hb, hall⟩ := (Option.any_eq_true _ _).1 heval
  obtain ⟨hcalls, hlength, hnext⟩ := of_decide_eq_true hall
  obtain ⟨b', hn, htimedOut⟩ := (Option.any_eq_true _ _).1 hnext
  have hok : InTime b (.expire 0) := by
    intro c w ws hc hstored hne
    have hw := (stored_eq_some.1 hstored).1
    rw [hcalls] at hc
    cases hc
    exact absurd (by omega : (0 : ℕ) = w) hne
  exact ⟨b, b', Machine.reachable_of_exec ⟨rfl, rfl⟩ hb, hn, of_decide_eq_true htimedOut, hok,
    changesOwn_iff hn⟩

end Barrier

end Timpani
