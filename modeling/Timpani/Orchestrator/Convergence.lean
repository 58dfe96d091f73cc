import Timpani.Orchestrator.Bookkeeping

/-!
# The replay loop settles

Pushes may fail, and a node whose push failed is left alone until its retry is due.  However long
the streams were broken and however many pushes failed, no retry is due later than eight seconds
after the last iteration.  So one iteration after that time in which the pushes succeed brings every
connected node up to date, and from then on the loop rests until the store or the connections change.

* `ReplayLoop.RetriesBefore` : a bound on the times of the pending retries;
* `ReplayLoop.settles` : one iteration after the last retry with working streams;
* `Replay.settled_of_due` : the loop settles eight seconds after the last iteration, and rests.
-/

namespace Timpani

namespace ReplayLoop

variable {l : ReplayLoop} {tables : ScheduleTableMap} {connected ns : List Text} {changed : Bool}
  {now bound : ℕ} {wall : Text → UInt64} {ok : Text → Bool} {n m : Text}

/-! ### The times of the retries -/

/-- No retry is due later than `bound`. -/
def RetriesBefore (l : ReplayLoop) (bound : ℕ) : Prop :=
  ∀ (n : Text) (time : ℕ), l.nextRetryTime[n]? = some time → time ≤ bound

theorem retryDelay_le (failCount : ℕ) : retryDelay failCount ≤ 8000 := Nat.min_le_right _ _

theorem RetriesBefore.requeue (h : l.RetriesBefore bound) : (l.requeue m).RetriesBefore bound := by
  intro n time htime
  rw [ReplayLoop.requeue, Std.ExtTreeMap.getElem?_erase] at htime
  split_ifs at htime
  exact h n time htime

theorem RetriesBefore.foldl {f : ReplayLoop → Text → ReplayLoop}
    (hf : ∀ l m, l.RetriesBefore bound → (f l m).RetriesBefore bound) (h : l.RetriesBefore bound) :
    (ns.foldl f l).RetriesBefore bound := by
  induction ns generalizing l with
  | nil => exact h
  | cons m ns ih => exact ih (hf l m h)

theorem RetriesBefore.takeStock (h : l.RetriesBefore bound) :
    (l.takeStock changed tables connected).RetriesBefore bound := by
  have hforget : ∀ (l : ReplayLoop) m, l.RetriesBefore bound → (l.forget m).RetriesBefore bound :=
    fun _ _ h => h.requeue
  have hnote : (l.noteConnections connected).RetriesBefore bound :=
    (h.foldl hforget).foldl hforget
  unfold ReplayLoop.takeStock noteChange
  dsimp only
  split_ifs
  · intro n time htime
    simp at htime
  · exact hnote.foldl fun _ _ h => h.requeue
  · exact hnote

theorem RetriesBefore.pushNode {s : ReplayLoop × Bool} (h : s.1.RetriesBefore bound)
    (hbound : now + 8000 * 1000000 ≤ bound) :
    (ReplayLoop.pushNode tables now wall ok s m).1.RetriesBefore bound := by
  unfold ReplayLoop.pushNode
  split_ifs
  · exact h
  · exact h.requeue
  · intro n time htime
    rw [failed, Std.ExtTreeMap.getElem?_insert] at htime
    split_ifs at htime
    · cases htime
      have hdelay := Nat.mul_le_mul_right 1000000 (retryDelay_le (s.1.replayFailures.getD m 0 + 1))
      exact (Nat.add_le_add_left hdelay now).trans hbound
    · exact h n time htime

theorem RetriesBefore.iteration (h : l.RetriesBefore bound)
    (hbound : now + 8000 * 1000000 ≤ bound) :
    (l.iteration changed tables connected now wall ok).RetriesBefore bound := by
  have hfold : ∀ (ns : List Text) (s : ReplayLoop × Bool), s.1.RetriesBefore bound →
      (ns.foldl (ReplayLoop.pushNode tables now wall ok) s).1.RetriesBefore bound := by
    intro ns
    induction ns with
    | nil => exact fun _ h => h
    | cons m ns ih => exact fun s h => ih _ (h.pushNode hbound)
  have hstock : (l.takeStock changed tables connected).RetriesBefore bound := h.takeStock
  unfold ReplayLoop.iteration
  dsimp only
  split_ifs
  · exact hfold connected (_, true) hstock
  · exact hstock

/-! ### An iteration with working streams -/

theorem mem_syncedNodes_pushNode {s : ReplayLoop × Bool} (hs : s.1.RetriesBefore now)
    (hok : ok m = true) :
    n ∈ (pushNode tables now wall ok s m).1.syncedNodes ↔ n = m ∨ n ∈ s.1.syncedNodes := by
  unfold pushNode
  split_ifs with hskip
  · refine (or_iff_right_of_imp ?_).symm
    rintro rfl
    rw [skips, Bool.or_eq_true, Option.any_eq_true] at hskip
    rcases hskip with hsynced | ⟨time, htime, hlate⟩
    · exact of_decide_eq_true hsynced
    · exact absurd (of_decide_eq_true hlate) (Nat.not_lt.2 (hs n time htime))
  · exact mem_syncedNodes_pushed

theorem foldl_pushNode_ok {s : ReplayLoop × Bool} (hs : s.1.RetriesBefore now)
    (hok : ∀ m ∈ ns, ok m = true) :
    (∀ n, n ∈ (ns.foldl (pushNode tables now wall ok) s).1.syncedNodes ↔
        n ∈ ns ∨ n ∈ s.1.syncedNodes) ∧
      (ns.foldl (pushNode tables now wall ok) s).2 = s.2 := by
  induction ns generalizing s with
  | nil => simp
  | cons m ns ih =>
    have hm : ok m = true := hok m List.mem_cons_self
    have hstep : (pushNode tables now wall ok s m).1.RetriesBefore now ∧
        (pushNode tables now wall ok s m).2 = s.2 := by
      unfold pushNode
      split_ifs
      · exact ⟨hs, rfl⟩
      · exact ⟨hs.requeue, rfl⟩
    obtain ⟨hsynced, hflag⟩ := ih hstep.1 fun m h => hok m (List.mem_cons_of_mem _ h)
    refine ⟨fun n => ?_, hflag.trans hstep.2⟩
    rw [List.foldl_cons, hsynced, mem_syncedNodes_pushNode hs hm, List.mem_cons]
    tauto

/-- **The loop settles** in an iteration in which every retry is due and every push succeeds. -/
theorem settles (hl : l.RetriesBefore now)
    (hpending : ∀ n ∈ l.knownConnectedNodes, n ∉ l.syncedNodes → l.replayPending = true)
    (htables : tables.isEmpty = false) (hconnected : connected ≠ [])
    (hok : ∀ n ∈ connected, ok n = true) :
    (∀ n ∈ connected, n ∈ (l.iteration changed tables connected now wall ok).syncedNodes) ∧
      (l.iteration changed tables connected now wall ok).replayPending = false := by
  unfold iteration
  dsimp only
  by_cases hp : (l.takeStock changed tables connected).replayPending = true
  · have hguard : ((l.takeStock changed tables connected).replayPending && !tables.isEmpty &&
        !connected.isEmpty) = true := by simp [hp, htables, hconnected]
    rw [if_pos hguard]
    have hstock : (l.takeStock changed tables connected).RetriesBefore now := hl.takeStock
    have hfold := @foldl_pushNode_ok tables connected now wall ok
      (l.takeStock changed tables connected, true) hstock hok
    obtain ⟨hsynced, hflag⟩ := hfold
    have hall : ∀ n ∈ connected, n ∈ (connected.foldl (pushNode tables now wall ok)
        (l.takeStock changed tables connected, true)).1.syncedNodes :=
      fun n hn => (hsynced n).2 (Or.inl hn)
    have hcomplete : connected.all (· ∈ (connected.foldl (pushNode tables now wall ok)
        (l.takeStock changed tables connected, true)).1.syncedNodes) = true :=
      List.all_eq_true.2 fun n hn => decide_eq_true (hall n hn)
    refine ⟨hall, ?_⟩
    dsimp only
    rw [hcomplete, hflag]
    exact Bool.and_false _
  · -- nothing is pending, so every connected node is synced already
    rw [if_neg (by simp [hp])]
    refine ⟨fun n hn => ?_, Bool.eq_false_iff.2 hp⟩
    by_contra hns
    exact hp (replayPending_takeStock (hpending n) hn hns)

/-! ### Iterations without a change -/

theorem knownConnectedNodes_iteration :
    (l.iteration changed tables connected now wall ok).knownConnectedNodes = .ofList connected := by
  refine Std.ExtTreeSet.ext_mem fun n => ?_
  rw [mem_knownConnectedNodes_iteration]
  simp

theorem takeStock_eq_self (hknown : l.knownConnectedNodes = .ofList connected) :
    l.takeStock false tables connected = l := by
  have hgone : l.knownConnectedNodes.toList.filter (· ∉ connected) = [] := by
    simp [List.filter_eq_nil_iff, hknown]
  have harrived : connected.filter (· ∉ l.knownConnectedNodes) = [] := by
    simp [List.filter_eq_nil_iff, hknown]
  rw [takeStock, if_neg Bool.false_ne_true, noteConnections, hgone, harrived]
  simp [← hknown]

theorem iteration_eq_self (hknown : l.knownConnectedNodes = .ofList connected)
    (hrest : l.replayPending = false) :
    l.iteration false tables connected now wall ok = l := by
  unfold iteration
  dsimp only
  rw [takeStock_eq_self hknown, if_neg (by simp [hrest])]

end ReplayLoop

namespace Replay

variable {U : Type} [Floating U] {G : GlobalScheduler U} {w w₁ w₂ : Replay}

/-- The iterations of a run read the steady clock until `time`. -/
def Until (time : ℕ) (_ : Replay) : Action → Prop
  | .iterate _ now _ _ => now ≤ time
  | .addSchedInfo _ _ _ | .removeWorkload _ _ => True

/-- An iteration with the given connected nodes, whatever becomes of its pushes. -/
def IteratesOn (connected : List Text) (_ : Replay) : Action → Prop
  | .iterate nodes _ _ _ => nodes = connected
  | .addSchedInfo _ _ _ | .removeWorkload _ _ => False

theorem retriesBefore_of_reachable {time : ℕ} (h : (machine G).ReachableIf (Until time) w) :
    w.loop.RetriesBefore (time + 8000 * 1000000) := by
  refine h.invariant (I := fun w => w.loop.RetriesBefore (time + 8000 * 1000000)) ?_ ?_
  · rintro _ rfl n t ht
    simp [ReplayLoop.new] at ht
  · intro w a w' hw ha hn
    cases a with
    | addSchedInfo clock clock' request =>
      simp only [machine] at hn
      split_ifs at hn
      cases hn
      exact hw
    | removeWorkload clock workloadId =>
      cases hn
      exact hw
    | iterate connected now wall ok =>
      cases hn
      exact hw.iteration (Nat.add_le_add_right ha _)

theorem rests {connected : List Text} (hflag : w.service.scheduleChanged = false)
    (hknown : w.loop.knownConnectedNodes = .ofList (stdSet connected))
    (hrest : w.loop.replayPending = false)
    (h : (machine G).Leads (IteratesOn connected) w w₂) : w₂ = w := by
  refine h.invariant (I := fun w' => w' = w) rfl ?_
  rintro _ a w' rfl ha hn
  cases a with
  | addSchedInfo clock clock' request => exact ha.elim
  | removeWorkload clock workloadId => exact ha.elim
  | iterate nodes now wall ok =>
    cases ha
    cases hn
    rw [hflag, ReplayLoop.iteration_eq_self hknown hrest, ← hflag]

/-- **The loop settles and rests.**  Take any run whose iterations read the steady clock until
`time`, whatever connected, failed and changed in it.  An iteration eight seconds later in which the
pushes to the connected nodes succeed leaves every one of them synced with its current table and
nothing pending; and as long as the store and the connections stay the same, the iterations after it
change nothing, even if the streams break again. -/
theorem settled_of_due {time : ℕ} (h : (machine G).ReachableIf (Until time) w)
    {connected : List Text} {now : ℕ} {wall : Text → UInt64} {ok : Text → Bool}
    (hdue : time + 8000 * 1000000 ≤ now) (htables : w.service.scheduleTables.isEmpty = false)
    (hconnected : connected ≠ []) (hok : ∀ n ∈ connected, ok n = true)
    (hn : (machine G).next w (.iterate connected now wall ok) = some w₁) :
    w₁.loop.replayPending = false ∧
      (∀ n ∈ connected, n ∈ w₁.loop.syncedNodes ∧
        w₁.loop.UpToDate w.service.scheduleTables n) ∧
      ∀ w₂, (machine G).Leads (IteratesOn connected) w₁ w₂ → w₂ = w₁ := by
  have hinv : Inv w := inv_of_reachable h.reachable
  have hsound := sound_of_reachable h.reachable hn
  have hbefore : w.loop.RetriesBefore now :=
    fun n t ht => (retriesBefore_of_reachable h n t ht).trans hdue
  cases hn
  have hnodes : stdSet connected ≠ [] := by
    obtain ⟨n, hn⟩ := List.exists_mem_of_ne_nil _ hconnected
    exact List.ne_nil_of_mem (mem_stdSet.2 hn)
  obtain ⟨hsynced, hrest⟩ := @ReplayLoop.settles _ _ _ w.service.scheduleChanged _ wall _ hbefore
    hinv.pending htables hnodes fun n hn => hok n (mem_stdSet.1 hn)
  refine ⟨hrest, fun n hc => ?_, fun w₂ hw₂ => rests rfl ?_ hrest hw₂⟩
  · have hs := hsynced n (mem_stdSet.2 hc)
    exact ⟨hs, (hsound n hc).2 hs⟩
  · exact ReplayLoop.knownConnectedNodes_iteration

/-- A push fails at time 0, and the streams work again eight seconds later. -/
theorem settled_after_failure :
    ∃ w w₁, (machine SchedInfoService.singleCpu).ReachableIf (Until 0) w ∧
      text "m" ∉ w.loop.syncedNodes ∧
      (machine SchedInfoService.singleCpu).next w (.iterate [text "m", text "n"] (8000 * 1000000)
        (fun _ => 0) (fun _ => true)) = some w₁ ∧
      w₁.loop.replayPending = false ∧
      (∀ n ∈ [text "m", text "n"], n ∈ w₁.loop.syncedNodes ∧
        w₁.loop.UpToDate w.service.scheduleTables n) ∧
      ∀ w₂, (machine SchedInfoService.singleCpu).Leads (IteratesOn [text "m", text "n"]) w₁ w₂ →
        w₂ = w₁ := by
  have heval : ((machine SchedInfoService.singleCpu).exec ⟨.new, .new⟩ [
      .addSchedInfo (fun _ => 0) (fun _ => 0)
        (SchedInfoService.periodicWorkload "a" [("t", 10, 3, 10)]),
      .iterate [text "m", text "n"] 0 (fun _ => 0) (fun nodeId => nodeId = text "n")]).any (fun w =>
        !w.service.scheduleTables.isEmpty && decide (text "m" ∉ w.loop.syncedNodes)) = true := by
    decide +kernel
  obtain ⟨w, hw, heval⟩ := (Option.any_eq_true _ _).1 heval
  rw [Bool.and_eq_true, Bool.not_eq_true', decide_eq_true_eq] at heval
  have hreach : (machine SchedInfoService.singleCpu).ReachableIf (Until 0) w :=
    ⟨_, rfl, Machine.leads_of_exec (by simp [Until]) hw⟩
  exact ⟨w, _, hreach, heval.2, rfl,
    settled_of_due hreach (Nat.le_refl _) heval.1 (List.cons_ne_nil _ _) (fun _ _ => rfl) rfl⟩

end Replay

end Timpani
