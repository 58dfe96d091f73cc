import Timpani.Barrier.Model

/-!
# Agreement on the start time

Every call of `sync_timer` under one workload that succeeds should return the same start time.

* `agreement_of_consistent` : it does in every run in which no call finds the set complete after one
  has succeeded; where one does, there is a clock reading with which it breaks the agreement, as soon
  as it reads the status it has published.
* `not_agreement_after_retry` : a node that calls again after its release starts at another time.
-/

namespace Timpani

/-- What a node arms its first timer for. -/
def SyncResponse.startTime (r : SyncResponse) : Int64 × Int32 := (r.startTimeSec, r.startTimeNsec)

/-- The call has returned a start time. -/
def SyncPhase.succeeded : SyncPhase → Bool
  | .returned (.ok _) => true
  | _ => false

namespace Barrier

variable {τ : Type} {b b' : Barrier τ} {a : Action τ} {secs w : ℕ} {r r' : SyncResponse}
  {ws ws' : WorkloadState τ}

/-- A call under the workload at `w` has returned the response. -/
def Started (b : Barrier τ) (w : ℕ) (r : SyncResponse) : Prop :=
  ∃ c ∈ b.calls, c.workload = w ∧ c.phase = .returned (.ok r)

/-- The calls under one workload that have succeeded have returned one start time. -/
def Agreement (b : Barrier τ) : Prop :=
  ∀ w r r', b.Started w r → b.Started w r' → r.startTime = r'.startTime

/-- A call finds the set complete only if no call under the workload has succeeded yet. -/
def Consistent (b : Barrier τ) : Action τ → Prop
  | .syncTimer node _ => ∀ w, b.Completes node w → ∀ r, ¬ b.Started w r
  | _ => True

theorem started_cases (h : next secs b a = some b') (hr : b'.Started w r) :
    b.Started w r ∨
      (∃ i, a = .read i) ∧ ∃ ws, b.workloads[w]? = some ws ∧
        ws.status = .released r.startTimeSec r.startTimeNsec := by
  obtain ⟨c', hmem, rfl, hphase⟩ := hr
  obtain ⟨i, hc'⟩ := List.mem_iff_getElem?.1 hmem
  cases hc : b.calls[i]? with
  | none =>
    obtain ⟨node, now, v, vs, -, -, rfl⟩ := registered_of_new h hc' hc
    cases hphase
  | some c =>
    obtain ⟨d, hd, -, hworkload, hmove⟩ := exists_move h hc
    cases hc'.symm.trans hd
    rcases hmove with ⟨-, hsame⟩ | ⟨ws, hws, hmove⟩
    · exact Or.inl ⟨c, List.mem_of_getElem? hc, hworkload.symm, hsame.symm.trans hphase⟩
    · rw [hphase] at hmove
      generalize c.phase = phase at hmove
      cases hmove with
      | start hstatus => exact Or.inr ⟨⟨i, rfl⟩, ws, hworkload ▸ hws, hstatus⟩

theorem startTime_eq_of_released (hr : ws.status = .released r.startTimeSec r.startTimeNsec)
    (hr' : ws.status = .released r'.startTimeSec r'.startTimeNsec) :
    r.startTime = r'.startTime := by
  obtain ⟨hsec, hnsec⟩ := BarrierStatus.released.inj (hr.symm.trans hr')
  exact Prod.ext hsec hnsec

/-- The start times agree with each other and with the status. -/
structure Agreed (b : Barrier τ) : Prop where
  agreement : b.Agreement
  status : ∀ w ws sec nsec, b.workloads[w]? = some ws → ws.status = .released sec nsec →
    ∀ r, b.Started w r → r.startTime = (sec, nsec)

theorem Agreed.next (h : b.Agreed) (hok : b.Consistent a) (hn : next secs b a = some b') :
    b'.Agreed := by
  -- a new response is read from the status, with which the others agree
  have hnew : ∀ w r r', b.Started w r → b'.Started w r' → r.startTime = r'.startTime := by
    intro w r r' hr hr'
    rcases started_cases hn hr' with hr' | ⟨-, ws, hws, hstatus⟩
    · exact h.agreement w r r' hr hr'
    · exact h.status w ws _ _ hws hstatus r hr
  refine ⟨fun w r r' hr hr' => ?_, fun w ws' sec nsec hws' hstatus' r hr => ?_⟩
  · rcases started_cases hn hr with hr | ⟨hread, ws, hws, hstatus⟩
    · exact hnew w r r' hr hr'
    · rcases started_cases hn hr' with hr' | ⟨-, vs, hvs, hstatus'⟩
      · exact (h.status w ws _ _ hws hstatus r' hr').symm
      · cases hws.symm.trans hvs
        exact startTime_eq_of_released hstatus hstatus'
  · cases hws : b.workloads[w]? with
    | none =>
      rw [waiting_of_new hn hws' hws] at hstatus'
      cases hstatus'
    | some ws =>
      obtain ⟨vs, hvs, -, hstep⟩ := exists_channelStep hn hws
      cases hws'.symm.trans hvs
      rcases hstep.value_cases with hsame | ⟨node, now, rfl, hcompletes, -, hvalue⟩ |
          ⟨-, ⟨-, hvalue⟩ | ⟨-, hvalue⟩⟩
      · have hstatus : ws.status = .released sec nsec := hsame.symm.trans hstatus'
        rcases started_cases hn hr with hr | ⟨-, vs, hvs, hstatus₂⟩
        · exact h.status w ws sec nsec hws hstatus r hr
        · cases hws.symm.trans hvs
          have hsame : r.startTime = (⟨true, sec, nsec⟩ : SyncResponse).startTime :=
            startTime_eq_of_released hstatus₂ hstatus
          exact hsame
      · rcases started_cases hn hr with hr | ⟨⟨i, hread⟩, -⟩
        · exact absurd hr (hok w hcompletes r)
        · cases hread
      · cases hvalue.symm.trans hstatus'
      · cases hvalue.symm.trans hstatus'

theorem agreed_of_reachable (h : (machine τ secs).ReachableIf Consistent b) : b.Agreed := by
  refine h.invariant (fun b hinit => ?_) fun _ _ _ hb hok hn => hb.next hok hn
  have hnone : ∀ w r, ¬ b.Started w r := by
    rintro w r ⟨c, hc, -⟩
    rw [hinit.2] at hc
    cases hc
  exact ⟨fun w r _ hr => absurd hr (hnone w r), fun w _ _ _ _ _ r hr => absurd hr (hnone w r)⟩

/-- A call that completes the set publishes its start time, and returns it if it reads the status
next. -/
theorem started_of_completes {node : Text} {now : ℕ} {b₁ : Barrier τ} (hw : b.Completes node w)
    (hn : (machine τ secs).next b (.syncTimer node now) = some b₁) :
    ∃ b₂, (machine τ secs).next b₁ (.read b.calls.length) = some b₂ ∧
      b₂.Started w ⟨true, (computeStartTime now).1, (computeStartTime now).2⟩ ∧
      ∀ r, b.Started w r → b₂.Started w r := by
  obtain ⟨ws, hstored, hmem, hall⟩ := hw
  have hn' : next secs b (.syncTimer node now) = some b₁ := hn
  obtain ⟨-, rfl⟩ := next_cases hn'
  have hws := (stored_eq_some.1 hstored).2
  rw [syncTimer_of_mem hstored hmem]
  have hregister : (register ws node b.calls.length now).status = releaseAt now := by
    rw [register, if_pos hall]
    exact Watch.value_send_subscribe
  have hcall : callIn { b with
        workloads := b.workloads.modify w (register · node b.calls.length now)
        calls := b.calls ++ [⟨node, w, .reading⟩]
        clock := now } .reading b.calls.length =
      some (w, register ws node b.calls.length now) :=
    callIn_eq_some.2 ⟨⟨node, w, .reading⟩, by simp, rfl, rfl, by simp [hws]⟩
  refine ⟨_, Option.map_eq_some_iff.2 ⟨_, hcall, rfl⟩, ?_⟩
  · dsimp only
    rw [hregister]
    dsimp only [releaseAt, read, finish]
    refine ⟨⟨setPhase (.returned (.ok ⟨true, _, _⟩)) ⟨node, w, .reading⟩, ?_, rfl, rfl⟩, ?_⟩
    · exact List.mem_of_getElem? (i := b.calls.length) (by simp)
    · rintro r ⟨c, hc, hworkload, hphase⟩
      obtain ⟨i, hi⟩ := List.mem_iff_getElem?.1 hc
      have hlt := (List.getElem?_eq_some_iff.1 hi).1
      refine ⟨c, List.mem_of_getElem? (i := i) ?_, hworkload, hphase⟩
      rw [List.getElem?_modify, List.getElem?_append_left hlt, hi]
      simp [(Nat.ne_of_lt hlt).symm]

theorem eq_of_div_mod_eq {x y : Int64} (hdiv : x / 1000000000 = y / 1000000000)
    (hmod : (x % 1000000000).toInt32 = (y % 1000000000).toInt32) : x = y := by
  have hden : (1000000000 : Int64).toInt = 1000000000 := by decide
  have hbounds : ∀ z : ℤ, 1000000000 * z.tdiv 1000000000 + z.tmod 1000000000 = z ∧
      -1000000000 < z.tmod 1000000000 ∧ z.tmod 1000000000 < 1000000000 := fun z =>
    ⟨Int.mul_tdiv_add_tmod z _, Int.lt_tmod_of_pos z (by decide), Int.tmod_lt_of_pos z (by decide)⟩
  have hquot : ∀ z : Int64, (z / 1000000000).toInt = z.toInt.tdiv 1000000000 := by
    intro z
    have hlo := z.le_toInt
    have hhi := z.toInt_lt
    have hz := hbounds z.toInt
    rw [Int64.toInt_div, hden]
    exact Int.bmod_eq_of_le (by omega) (by omega)
  have hrem : ∀ z : Int64, (z % 1000000000).toInt32.toInt = z.toInt.tmod 1000000000 := by
    intro z
    have hz := hbounds z.toInt
    rw [Int64.toInt_toInt32, Int64.toInt_mod, hden]
    exact Int.bmod_eq_of_le (by omega) (by omega)
  have hdiv := congrArg Int64.toInt hdiv
  have hmod := congrArg Int32.toInt hmod
  rw [hquot, hquot] at hdiv
  rw [hrem, hrem] at hmod
  refine Int64.toInt_inj.1 ?_
  rw [← (hbounds x.toInt).1, hdiv, hmod, (hbounds y.toInt).1]

theorem exists_computeStartTime_ne (clock : ℕ) (t : Int64 × Int32) :
    ∃ now, clock ≤ now ∧ t ≠ computeStartTime now := by
  by_cases ht : t = computeStartTime clock
  · refine ⟨clock + 1, Nat.le_succ clock, fun heq => ?_⟩
    obtain ⟨hdiv, hmod⟩ := Prod.mk.inj (ht.symm.trans heq)
    have hsame := eq_of_div_mod_eq hdiv hmod
    rw [Int64.ofNat_add, Int64.add_assoc, Int64.add_right_inj] at hsame
    exact absurd hsame (by decide)
  · exact ⟨clock, le_rfl, ht⟩
/-- **The start times agree** in every run in which no call finds the set complete after one has
succeeded.  In the state before a call that does, there is a clock reading with which the start times
do not agree when the call returns. -/
theorem agreement_of_consistent (hb : (machine τ secs).ReachableIf Consistent b) :
    b.Agreement ∧
    ∀ node now, ¬ b.Consistent (.syncTimer node now) →
      ∃ later b₁ b₂, (machine τ secs).next b (.syncTimer node later) = some b₁ ∧
        (machine τ secs).next b₁ (.read b.calls.length) = some b₂ ∧ ¬ b₂.Agreement := by
  refine ⟨(agreed_of_reachable hb).agreement, fun node now hnot => ?_⟩
  obtain ⟨w, hw, r, hr⟩ : ∃ w, b.Completes node w ∧ ∃ r, b.Started w r := by
    simpa only [Consistent, not_forall, exists_prop, not_not] using hnot
  obtain ⟨later, hclock, hne⟩ := exists_computeStartTime_ne b.clock r.startTime
  have hn : (machine τ secs).next b (.syncTimer node later) =
      some { b.syncTimer node later with clock := later } := if_pos hclock
  obtain ⟨b₂, hn₂, hnew, hkeep⟩ := started_of_completes hw hn
  exact ⟨later, _, b₂, hn, hn₂, fun hagree => hne (hagree w r _ (hkeep r hr) hnew)⟩

/-- Nothing stored, nothing called. -/
def fresh : Barrier Unit := ⟨[], [], [], 0⟩

/-- The nodes `n1` and `n2` have tasks. -/
def twoNodes : NodeSchedMap Unit := .ofList [(text "n1", [()]), (text "n2", [()])]

/-- No call has succeeded yet when a call registers. -/
def noneStarted (b : Barrier Unit) : Action Unit → Bool
  | .syncTimer _ _ => b.calls.all fun c => !c.phase.succeeded
  | _ => true

theorem consistent_of_noneStarted (b : Barrier Unit) (a : Action Unit)
    (h : noneStarted b a = true) : b.Consistent a := by
  cases a with
  | syncTimer node now =>
    rintro w - r ⟨c, hc, -, hphase⟩
    have hnot := List.all_eq_true.1 h c hc
    rw [hphase] at hnot
    cases hnot
  | _ => trivial

/-- Both nodes call once: the first waits, the second completes the set, and both are told the start
time that was published. -/
theorem agreement_of_two_nodes :
    ∃ b, (machine Unit 30).ReachableIf Consistent b ∧
      b.Started 0 ⟨true, 6, 7⟩ ∧ b.calls.length = 2 ∧ b.calls.all (·.phase.succeeded) = true ∧
      b.Agreement := by
  have heval : ((machine Unit 30).execIf noneStarted fresh
      [.addSchedInfo (text "w") (some twoNodes), .syncTimer (text "n1") 0, .read 0,
        .syncTimer (text "n2") 5000000007, .read 1, .wake 0, .read 0]).any
      (fun b => decide (b.calls = [⟨text "n1", 0, .returned (.ok ⟨true, 6, 7⟩)⟩,
        ⟨text "n2", 0, .returned (.ok ⟨true, 6, 7⟩)⟩])) = true := by
    decide +kernel
  obtain ⟨b, hb, hcalls⟩ := (Option.any_eq_true _ _).1 heval
  have hcalls := of_decide_eq_true hcalls
  have hreach : (machine Unit 30).ReachableIf Consistent b :=
    ⟨fresh, ⟨rfl, rfl⟩, Machine.leads_of_execIf consistent_of_noneStarted hb⟩
  refine ⟨b, hreach, ?_, ?_, ?_, (agreement_of_consistent hreach).1⟩
  · exact ⟨_, hcalls ▸ List.mem_cons_self, rfl, rfl⟩
  · rw [hcalls]
    rfl
  · rw [hcalls]
    rfl

/-- The only node of a workload calls, is released, and calls again five seconds later: the second
call publishes and returns another start time. -/
theorem not_agreement_after_retry :
    ∃ b, (machine Unit 30).Reachable b ∧ b.Started 0 ⟨true, 1, 0⟩ ∧ b.Started 0 ⟨true, 6, 0⟩ ∧
      ¬ b.Agreement := by
  have heval : ((machine Unit 30).exec fresh
      [.addSchedInfo (text "w") (some (.ofList [(text "n1", [()])])), .syncTimer (text "n1") 0,
        .read 0, .syncTimer (text "n1") 5000000000, .read 1]).any
      (fun b => decide (b.calls = [⟨text "n1", 0, .returned (.ok ⟨true, 1, 0⟩)⟩,
        ⟨text "n1", 0, .returned (.ok ⟨true, 6, 0⟩)⟩])) = true := by
    decide +kernel
  obtain ⟨b, hb, hcalls⟩ := (Option.any_eq_true _ _).1 heval
  have hcalls := of_decide_eq_true hcalls
  have hfirst : b.Started 0 ⟨true, 1, 0⟩ := ⟨_, hcalls ▸ List.mem_cons_self, rfl, rfl⟩
  have hsecond : b.Started 0 ⟨true, 6, 0⟩ :=
    ⟨_, hcalls ▸ List.mem_cons_of_mem _ List.mem_cons_self, rfl, rfl⟩
  refine ⟨b, Machine.reachable_of_exec ⟨rfl, rfl⟩ hb, hfirst, hsecond, fun hagree => ?_⟩
  exact absurd (hagree 0 _ _ hfirst hsecond) (by decide)

end Barrier

end Timpani
