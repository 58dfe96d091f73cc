import Timpani.Packing.WorstFit
import Timpani.Scheduler.Admission

/-!
# When a node can be scheduled

Two runs of the scheduler on different sets of tasks are compared here, with exact utilisations.

* `feasible_iff` : the scheduler succeeds iff worst fit finds a CPU for every CBS task, with some
  bandwidth left by the TT tasks, and the TT tasks of every CPU can be placed;
* `exists_worstFitRun_iff` : when worst fit succeeds, in terms of the residual capacities alone;
* `Feasible.sublist_cbs` : leaving out CBS tasks keeps a node feasible;
* `Feasible.erase_tt` : so does leaving out a TT workload, when every TT workload has a CPU of its
  own.
-/

namespace Timpani

namespace GlobalScheduler

/-! ### Placing TT tasks on another CPU -/

section Placement

variable {U : Type} [Floating U] {G : GlobalScheduler U}

theorem placeTask_onCpu {cpu cpu' : ℤ} {hp : UInt64} {t : ClassifiedTask} {st st' st₁ : Placing}
    (hocc : st.occupied = st'.occupied) (h : placeTask cpu hp st (t.onCpu cpu) = .ok st₁) :
    ∃ st₁', placeTask cpu' hp st' (t.onCpu cpu') = .ok st₁' ∧ st₁.occupied = st₁'.occupied := by
  unfold placeTask at h ⊢
  by_cases h0 : (t.onCpu cpu).periodUs = 0
  · rw [if_pos h0] at h
    rw [if_pos (show (t.onCpu cpu').periodUs = 0 from h0)]
    cases h
    exact ⟨st', rfl, hocc⟩
  · rw [if_neg h0] at h
    rw [if_neg (show (t.onCpu cpu').periodUs ≠ 0 from h0)]
    refine exists_foldlM_of_simulation (R := fun a b : Placing => a.occupied = b.occupied) ?_ hocc h
    intro k st st' st₁ hocc h
    unfold placeFrame at h ⊢
    dsimp only at h ⊢
    split_ifs at h with hneg
    cases h
    rw [hocc] at hneg
    rw [if_neg (show ¬ findFreeSlot st'.occupied (frameStart (t.onCpu cpu') k)
      (t.onCpu cpu').wcetUs (frameEnd hp (t.onCpu cpu') k) < 0 from hneg)]
    refine ⟨_, rfl, ?_⟩
    dsimp only
    rw [hocc]
    rfl

/-- The tasks can be placed on a CPU of their own, say CPU 0. -/
def Placeable (G : GlobalScheduler U) (ts : List ClassifiedTask) : Prop :=
  ∃ s : PerCpuSchedule U, G.placeOnCpu (ts.map (·.onCpu 0)) (.new 0) = .ok s

theorem assignedTo_map_onCpu (cpu : ℤ) (ts : List ClassifiedTask) :
    assignedTo cpu (ts.map (·.onCpu cpu)) = ts.map (·.onCpu cpu) := by
  refine List.filter_eq_self.2 fun t ht => ?_
  obtain ⟨t, -, rfl⟩ := List.mem_map.1 ht
  exact decide_eq_true rfl

omit [Floating U] in
theorem exists_placeOnCpu_of_onCpu (hnat : G.stdSort.Natural) {tt tt' ts : List ClassifiedTask}
    {s s' s₁ : PerCpuSchedule U} (htt : assignedTo s.cpuId tt = ts.map (·.onCpu s.cpuId))
    (htt' : assignedTo s'.cpuId tt' = ts.map (·.onCpu s'.cpuId))
    (h : G.placeOnCpu tt s = .ok s₁) : ∃ s₁', G.placeOnCpu tt' s' = .ok s₁' := by
  unfold placeOnCpu at h ⊢
  dsimp only at h ⊢
  simp only [htt, htt', List.isEmpty_map, periodsOf_map_onCpu] at h ⊢
  split_ifs at h ⊢ with hemp hharm
  · exact ⟨s', rfl⟩
  · unfold placeTtSlots at h ⊢
    split_ifs at h ⊢ with hzero
    obtain ⟨st, hst, -⟩ := bind_eq_ok.1 h
    rw [hnat, List.foldlM_map] at hst
    have hstep : ∀ (t : ClassifiedTask) (st st' st₁ : Placing), st.occupied = st'.occupied →
        placeTask s.cpuId (calculateHyperperiod (periodsOf ts)) st (t.onCpu s.cpuId) = .ok st₁ →
        ∃ st₁', placeTask s'.cpuId (calculateHyperperiod (periodsOf ts)) st'
          (t.onCpu s'.cpuId) = .ok st₁' ∧ st₁.occupied = st₁'.occupied :=
      fun _ _ _ _ hocc => placeTask_onCpu hocc
    obtain ⟨st', hst', -⟩ := exists_foldlM_of_simulation hstep
      (s := { ttSlots := s.ttSlots, occupied := [] })
      (t := { ttSlots := s'.ttSlots, occupied := [] }) rfl hst
    refine ⟨_, bind_eq_ok.2 ⟨st', ?_, rfl⟩⟩
    rw [hnat, List.foldlM_map]
    exact hst'

theorem exists_placeOnCpu_iff (hnat : G.stdSort.Natural) {tt ts : List ClassifiedTask}
    {s : PerCpuSchedule U} (htt : assignedTo s.cpuId tt = ts.map (·.onCpu s.cpuId)) :
    (∃ s₁, G.placeOnCpu tt s = .ok s₁) ↔ Placeable G ts :=
  ⟨fun ⟨_, h⟩ => exists_placeOnCpu_of_onCpu hnat htt (assignedTo_map_onCpu 0 ts) h,
    fun ⟨_, h⟩ => exists_placeOnCpu_of_onCpu hnat (assignedTo_map_onCpu 0 ts) htt h⟩

end Placement

/-! ### Worst fit with exact utilisations -/

theorem residual_eq (uTt uCbs : ℚ) : residual uTt uCbs = 78 / 100 - uTt - uCbs := by
  change (uBound : ℚ) - uTt - uCbs - uOverhead = _
  rw [uBound_eq, uOverhead_eq]
  ring

section WorstFit

variable {cpus : List ℤ} {uTt uCbs uCbs' : ℤ → ℚ} {us : List ℚ} {chosen : List ℤ}

theorem worstFitStep_eq {cpu : ℤ} (hc : cpu ∈ cpus) (u : ℚ) (best : ℤ × ℚ) :
    worstFitStep (loaded cpus uTt uCbs) u best cpu =
      if u ≤ residual (uTt cpu) (uCbs cpu) ∧ best.2 < residual (uTt cpu) (uCbs cpu)
      then (cpu, residual (uTt cpu) (uCbs cpu)) else best := by
  rw [worstFitStep_loaded hc]
  refine if_congr ?_ rfl rfl
  rw [Bool.and_eq_true]
  exact and_congr decide_eq_true_iff decide_eq_true_iff

/-- **The search** finds a CPU with the largest residual capacity, if that is large enough. -/
theorem worstFitCpu_loaded (cpus : List ℤ) (uTt uCbs : ℤ → ℚ) {u : ℚ} (hu : 0 ≤ u) :
    let cpu := worstFitCpu cpus (loaded cpus uTt uCbs) u
    (cpu = -1 ∧ ∀ c ∈ cpus, residual (uTt c) (uCbs c) < u) ∨
      (cpu ∈ cpus ∧ u ≤ residual (uTt cpu) (uCbs cpu) ∧
        ∀ c ∈ cpus, residual (uTt c) (uCbs c) ≤ residual (uTt cpu) (uCbs cpu)) := by
  -- the best CPU of the part of the list that has been searched
  suffices hpart : ∀ l : List ℤ, l ⊆ cpus →
      let best := l.foldl (worstFitStep (loaded cpus uTt uCbs) u) (-1, Floating.ofDecimal (-1) 0)
      (best = (-1, -1) ∧ ∀ c ∈ l, residual (uTt c) (uCbs c) < u) ∨
        (best.1 ∈ l ∧ best.2 = residual (uTt best.1) (uCbs best.1) ∧ u ≤ best.2 ∧
          ∀ c ∈ l, residual (uTt c) (uCbs c) ≤ best.2) by
    rcases hpart cpus (List.Subset.refl _) with ⟨hbest, hnone⟩ | ⟨hmem, heq, hfit, hmax⟩
    · exact Or.inl ⟨congrArg Prod.fst hbest, hnone⟩
    · rw [heq] at hfit hmax
      exact Or.inr ⟨hmem, hfit, hmax⟩
  intro l hl
  induction l using List.reverseRecOn with
  | nil => exact Or.inl ⟨by norm_num [Floating.ofDecimal], by simp⟩
  | append_singleton l c ih =>
    have ih := ih fun x hx => hl (List.mem_append_left _ hx)
    have hc : c ∈ cpus := hl (List.mem_append_right _ (List.mem_singleton_self c))
    dsimp only at ih ⊢
    rw [List.foldl_append, List.foldl_cons, List.foldl_nil, worstFitStep_eq hc]
    set best := l.foldl (worstFitStep (loaded cpus uTt uCbs) u) (-1, Floating.ofDecimal (-1) 0)
    set r := residual (uTt c) (uCbs c)
    by_cases htake : u ≤ r ∧ best.2 < r
    · rw [if_pos htake]
      refine Or.inr ⟨by simp, rfl, htake.1, fun x hx => ?_⟩
      rcases List.mem_append.1 hx with hx | hx
      · rcases ih with ⟨-, hnone⟩ | ⟨-, -, -, hmax⟩
        · exact ((hnone x hx).trans_le htake.1).le
        · exact (hmax x hx).trans htake.2.le
      · rw [List.mem_singleton.1 hx]
    · rw [if_neg htake]
      rcases ih with ⟨hbest, hnone⟩ | ⟨hmem, heq, hfit, hmax⟩
      · -- a CPU that takes the task beats the initial value
        have hr : r < u := by
          by_contra hle
          rw [hbest] at htake
          exact htake ⟨not_lt.1 hle, by dsimp only; linarith⟩
        refine Or.inl ⟨hbest, fun x hx => ?_⟩
        rcases List.mem_append.1 hx with hx | hx
        · exact hnone x hx
        · rw [List.mem_singleton.1 hx]
          exact hr
      · refine Or.inr ⟨List.mem_append_left _ hmem, heq, hfit, fun x hx => ?_⟩
        rcases List.mem_append.1 hx with hx | hx
        · exact hmax x hx
        · rw [List.mem_singleton.1 hx]
          by_contra hlt
          exact htake ⟨hfit.trans (not_le.1 hlt).le, not_le.1 hlt⟩

theorem worstFitCpu_spec {u : ℚ} (hu : 0 ≤ u) (h : ¬ worstFitCpu cpus (loaded cpus uTt uCbs) u < 0) :
    let cpu := worstFitCpu cpus (loaded cpus uTt uCbs) u
    cpu ∈ cpus ∧ u ≤ residual (uTt cpu) (uCbs cpu) ∧
      ∀ c ∈ cpus, residual (uTt c) (uCbs c) ≤ residual (uTt cpu) (uCbs cpu) := by
  rcases worstFitCpu_loaded cpus uTt uCbs hu with ⟨hneg, -⟩ | hbest
  · exact absurd (by rw [hneg]; decide) h
  · exact hbest

theorem residual_update (uTt uCbs : ℤ → ℚ) (cpu : ℤ) (u : ℚ) :
    (fun c => residual (uTt c) (Function.update uCbs cpu (Floating.add (uCbs cpu) u) c)) =
      Function.update (fun c => residual (uTt c) (uCbs c)) cpu
        (residual (uTt cpu) (uCbs cpu) - u) := by
  funext c
  by_cases hc : c = cpu
  · subst hc
    rw [Function.update_self, Function.update_self, residual_eq, residual_eq]
    change 78 / 100 - uTt c - (uCbs c + u) = _
    ring
  · rw [Function.update_of_ne hc, Function.update_of_ne hc]

/-- **When worst fit succeeds** depends on the residual capacities of the CPUs alone. -/
theorem exists_worstFitRun_iff (hcpus : ∀ c ∈ cpus, 0 ≤ c) (hus : ∀ u ∈ us, 0 ≤ u) :
    (∃ r, worstFitRun cpus uTt uCbs us = .ok r) ↔
      WorstFits (((stdSet cpus).map fun c => residual (uTt c) (uCbs c) : List ℚ) : Multiset ℚ)
        us := by
  induction us generalizing uCbs with
  | nil => exact iff_of_true ⟨_, rfl⟩ (.nil _)
  | cons u us ih =>
    have hu := hus u List.mem_cons_self
    have ih := fun uCbs => @ih uCbs fun u hu => hus u (List.mem_cons_of_mem _ hu)
    constructor
    · rintro ⟨⟨chosen, uCbs'⟩, h⟩
      obtain ⟨cpu, chosen', rfl, hneg, hrest, -⟩ := worstFitRun_cons.1 h
      obtain ⟨hmem, hfit, hmax⟩ := worstFitCpu_spec hu hneg
      obtain ⟨s, hs, hupdate⟩ := map_update_eq (nodup_stdSet cpus) (mem_stdSet.2 hmem)
        fun c => residual (uTt c) (uCbs c)
      have hrest := (ih _).1 ⟨_, hrest⟩
      rw [residual_update, hupdate] at hrest
      rw [hs]
      refine .cons (fun x hx => ?_) hfit hrest
      have hx : x ∈ (((stdSet cpus).map fun c => residual (uTt c) (uCbs c) : List ℚ) :
          Multiset ℚ) := hs ▸ Multiset.mem_cons_of_mem hx
      obtain ⟨c, hc, rfl⟩ := List.mem_map.1 (Multiset.mem_coe.1 hx)
      exact hmax c (mem_stdSet.1 hc)
    · intro h
      generalize hS : (((stdSet cpus).map fun c => residual (uTt c) (uCbs c) : List ℚ) :
        Multiset ℚ) = S at h
      cases h with
      | @cons m _ t _ hmax hfit hrest =>
        obtain ⟨c, hc, rfl⟩ : ∃ c ∈ cpus, residual (uTt c) (uCbs c) = m := by
          have hm : m ∈ (((stdSet cpus).map fun c => residual (uTt c) (uCbs c) : List ℚ) :
              Multiset ℚ) := hS ▸ Multiset.mem_cons_self _ _
          obtain ⟨c, hc, hm⟩ := List.mem_map.1 (Multiset.mem_coe.1 hm)
          exact ⟨c, mem_stdSet.1 hc, hm⟩
        rcases worstFitCpu_loaded cpus uTt uCbs hu with ⟨-, hnone⟩ | ⟨hmem, -, hbest⟩
        · exact absurd (hnone c hc) (not_lt.2 hfit)
        set cpu := worstFitCpu cpus (loaded cpus uTt uCbs) u with hcpu
        obtain ⟨s, hs, hupdate⟩ := map_update_eq (nodup_stdSet cpus) (mem_stdSet.2 hmem)
          fun c => residual (uTt c) (uCbs c)
        -- the CPU that is chosen has the same residual capacity as the bin
        have heq : residual (uTt cpu) (uCbs cpu) = residual (uTt c) (uCbs c) := by
          refine le_antisymm ?_ (hbest c hc)
          have hin : residual (uTt cpu) (uCbs cpu) ∈ residual (uTt c) (uCbs c) ::ₘ t := by
            rw [← hS, hs]
            exact Multiset.mem_cons_self _ _
          rcases Multiset.mem_cons.1 hin with heq | hin
          · exact heq.le
          · exact hmax _ hin
        have ht : s = t := by
          rw [hs, heq] at hS
          exact (Multiset.cons_inj_right _).1 hS
        have hrun : ∃ r, worstFitRun cpus uTt
            (Function.update uCbs cpu (Floating.add (uCbs cpu) u)) us = .ok r := by
          rw [ih, residual_update, hupdate, heq, ht]
          exact hrest
        obtain ⟨⟨chosen, uCbs'⟩, hrun⟩ := hrun
        exact ⟨_, worstFitRun_cons.2 ⟨cpu, chosen, hcpu, not_lt.2 (hcpus _ hmem), hrun, rfl⟩⟩

theorem worstFitRun_loads (hus : ∀ u ∈ us, 0 ≤ u)
    (h : worstFitRun cpus uTt uCbs us = .ok (chosen, uCbs')) :
    (∀ c, uCbs' c = uCbs c + (((chosen.zip us).filter (·.1 = c)).map Prod.snd).sum) ∧
      ∀ c ∈ chosen, c ∈ cpus ∧ uCbs' c ≤ 78 / 100 - uTt c := by
  induction us generalizing uCbs chosen with
  | nil =>
    cases h
    exact ⟨fun c => by simp, by simp⟩
  | cons u us ih =>
    obtain ⟨cpu, chosen', hcpu, hneg, hrest, rfl⟩ := worstFitRun_cons.1 h
    subst hcpu
    obtain ⟨hmem, hfit, -⟩ := worstFitCpu_spec (hus u List.mem_cons_self) hneg
    set cpu := worstFitCpu cpus (loaded cpus uTt uCbs) u
    obtain ⟨hsum, hfits⟩ := ih (fun u hu => hus u (List.mem_cons_of_mem _ hu)) hrest
    refine ⟨fun c => ?_, fun c hc => ?_⟩
    · rw [hsum c, List.zip_cons_cons, List.filter_cons]
      by_cases hc : c = cpu
      · subst hc
        rw [Function.update_self, if_pos (by simp), List.map_cons, List.sum_cons, ← add_assoc]
        rfl
      · rw [Function.update_of_ne hc, if_neg (by simpa using Ne.symm hc)]
    · by_cases hlater : c ∈ chosen'
      · exact hfits c hlater
      · -- the last task of the CPU is this one
        obtain rfl := (List.mem_cons.1 hc).resolve_right hlater
        refine ⟨hmem, ?_⟩
        have hnone : (chosen'.zip us).filter (·.1 = cpu) = [] := by
          refine List.filter_eq_nil_iff.2 fun x hx heq => hlater ?_
          exact of_decide_eq_true heq ▸ (List.of_mem_zip hx).1
        rw [hsum cpu, hnone, Function.update_self, List.map_nil, List.sum_nil, add_zero]
        rw [residual_eq] at hfit
        change uCbs cpu + u ≤ _
        linarith

theorem worstFitRun_nonneg (hus : ∀ u ∈ us, 0 ≤ u)
    (h : worstFitRun cpus uTt unloaded us = .ok (chosen, uCbs')) (c : ℤ) : 0 ≤ uCbs' c := by
  rw [(worstFitRun_loads hus h).1 c, show (unloaded c : ℚ) = 0 from Floating.ofDecimal_zero, zero_add]
  refine List.sum_nonneg fun u hu => ?_
  obtain ⟨x, hx, rfl⟩ := List.mem_map.1 hu
  exact hus _ (List.of_mem_zip (List.mem_of_mem_filter hx)).2

theorem lt_of_mem_chosen (hus : ∀ u ∈ us, 0 < u)
    (h : worstFitRun cpus uTt unloaded us = .ok (chosen, uCbs')) {c : ℤ} (hc : c ∈ chosen) :
    uTt c < 78 / 100 := by
  obtain ⟨hloads, hfits⟩ := worstFitRun_loads (fun u hu => (hus u hu).le) h
  have hpos : 0 < uCbs' c := by
    rw [hloads c, show (unloaded c : ℚ) = 0 from Floating.ofDecimal_zero, zero_add]
    have hmem : ∀ u ∈ ((chosen.zip us).filter (·.1 = c)).map Prod.snd, 0 < u := by
      intro u hu
      obtain ⟨x, hx, rfl⟩ := List.mem_map.1 hu
      exact hus _ (List.of_mem_zip (List.mem_of_mem_filter hx)).2
    refine List.sum_pos _ hmem fun hnil => ?_
    rw [List.map_eq_nil_iff, List.filter_eq_nil_iff] at hnil
    rw [← List.map_fst_zip (worstFitRun_length h).le] at hc
    obtain ⟨x, hx, rfl⟩ := List.mem_map.1 hc
    exact hnil x hx (by simp)
  have := (hfits c hc).2
  linarith

theorem eq_of_mem_worstFitRun_zeros {k : ℕ}
    (h : worstFitRun cpus uTt uCbs (List.replicate k 0) = .ok (chosen, uCbs')) {c : ℤ}
    (hc : c ∈ chosen) : c = worstFitCpu cpus (loaded cpus uTt uCbs) 0 := by
  induction k generalizing chosen with
  | zero => cases h; cases hc
  | succ k ih =>
    obtain ⟨cpu, rest, hcpu, -, hrest, rfl⟩ := worstFitRun_cons.1 h
    have hzero : Floating.add (uCbs cpu) 0 = uCbs cpu := add_zero (uCbs cpu)
    rw [hzero, Function.update_eq_self] at hrest
    rcases List.mem_cons.1 hc with rfl | hc
    · exact hcpu
    · exact ih hrest hc

theorem sum_worstFitRun (hus : ∀ u ∈ us, 0 ≤ u)
    (h : worstFitRun cpus uTt uCbs us = .ok (chosen, uCbs')) :
    ((stdSet cpus).map uCbs').sum = ((stdSet cpus).map uCbs).sum + us.sum := by
  induction us generalizing uCbs chosen with
  | nil => cases h; simp
  | cons u us ih =>
    obtain ⟨cpu, rest, rfl, hneg, hrest, -⟩ := worstFitRun_cons.1 h
    obtain ⟨hmem, -⟩ := worstFitCpu_spec (hus u List.mem_cons_self) hneg
    obtain ⟨s, hs, hupdate⟩ := map_update_eq (nodup_stdSet cpus) (mem_stdSet.2 hmem) uCbs
    have hsum : ((stdSet cpus).map uCbs).sum = uCbs (worstFitCpu cpus (loaded cpus uTt uCbs) u) +
        s.sum := by
      rw [← Multiset.sum_coe, hs, Multiset.sum_cons]
    rw [ih (fun u hu => hus u (List.mem_cons_of_mem _ hu)) hrest, ← Multiset.sum_coe, hupdate,
      Multiset.sum_cons, hsum, List.sum_cons]
    change (uCbs _ + u) + s.sum + us.sum = _
    ring

/-- What the TT tasks leave for the CBS tasks. -/
def capacity (cpus : List ℤ) (uTt : ℤ → ℚ) : ℚ :=
  ((stdSet cpus).map fun c => max 0 (78 / 100 - uTt c)).sum

theorem sum_le_capacity (hus : ∀ u ∈ us, 0 ≤ u)
    (h : worstFitRun cpus uTt unloaded us = .ok (chosen, uCbs')) : us.sum ≤ capacity cpus uTt := by
  have hsum := sum_worstFitRun hus h
  obtain ⟨hloads, hfits⟩ := worstFitRun_loads hus h
  have hzero : ((stdSet cpus).map (unloaded : ℤ → ℚ)).sum = 0 :=
    List.sum_eq_zero (by simp [unloaded, Floating.ofDecimal_zero])
  rw [hzero, zero_add] at hsum
  rw [← hsum]
  refine List.sum_le_sum fun c _ => ?_
  by_cases hc : c ∈ chosen
  · exact le_max_of_le_right (hfits c hc).2
  · have hnone : (chosen.zip us).filter (·.1 = c) = [] := by
      refine List.filter_eq_nil_iff.2 fun x hx heq => hc ?_
      exact of_decide_eq_true heq ▸ (List.of_mem_zip hx).1
    rw [hloads c, hnone]
    exact le_max_of_le_left (by simp [unloaded, Floating.ofDecimal_zero])

theorem capacity_le_sum (hus : ∀ u ∈ us, 0 ≤ u)
    (h : worstFitRun cpus uTt unloaded us = .ok (chosen, uCbs'))
    (hfull : ∀ c ∈ cpus, residual (uTt c) (uCbs' c) ≤ 0) : capacity cpus uTt ≤ us.sum := by
  have hsum := sum_worstFitRun hus h
  have hzero : ((stdSet cpus).map (unloaded : ℤ → ℚ)).sum = 0 :=
    List.sum_eq_zero (by simp [unloaded, Floating.ofDecimal_zero])
  rw [hzero, zero_add] at hsum
  rw [← hsum]
  refine List.sum_le_sum fun c hc => max_le ?_ ?_
  · exact worstFitRun_nonneg hus h c
  · have := hfull c (mem_stdSet.1 hc)
    rw [residual_eq] at this
    linarith

/-- **Leaving out tasks, worst fit still chooses CPUs with bandwidth.**  The tasks without load come
last in both runs, and there is one in the first run if there is one in the second. -/
theorem lt_of_mem_chosen_of_sublist {us' : List ℚ} {k k' : ℕ} {chosen' : List ℤ}
    (hcpus : ∀ c ∈ cpus, 0 ≤ c)
    (hrun : worstFitRun cpus uTt unloaded (us ++ List.replicate k 0) = .ok (chosen, uCbs))
    (hlight : ∀ c ∈ chosen, uTt c < 78 / 100)
    (hrun' : worstFitRun cpus uTt unloaded (us' ++ List.replicate k' 0) = .ok (chosen', uCbs'))
    (hsub : us'.Sublist us) (hpos : ∀ u ∈ us, 0 < u) (hzeros : 0 < k' → 0 < k) :
    ∀ c ∈ chosen', uTt c < 78 / 100 := by
  intro c hc
  have hpos' : ∀ u ∈ us', 0 < u := fun u hu => hpos u (hsub.subset hu)
  obtain ⟨chosen₁, uCbs₁, chosen₂, hrun₁, hrun₂, rfl⟩ := worstFitRun_append.1 hrun
  obtain ⟨chosen₁', uCbs₁', chosen₂', hrun₁', hrun₂', rfl⟩ := worstFitRun_append.1 hrun'
  rcases List.mem_append.1 hc with hc | hc
  · exact lt_of_mem_chosen hpos' hrun₁' hc
  by_contra hheavy
  -- a task without load goes to a CPU with nothing to give: the capacity is used up, so no task
  -- with a load has been left out
  have hk : 0 < k' := by
    have hlen := worstFitRun_length hrun₂'
    rw [List.length_replicate] at hlen
    exact hlen ▸ List.length_pos_of_mem hc
  have hc₀ := eq_of_mem_worstFitRun_zeros hrun₂' hc
  have hneg : ¬ worstFitCpu cpus (loaded cpus uTt uCbs₁') 0 < 0 := by
    rw [← hc₀]
    exact not_lt.2 (hcpus c ((worstFitRun_loads (by simp) hrun₂').2 c hc).1)
  obtain ⟨-, -, hmax⟩ := worstFitCpu_spec le_rfl hneg
  rw [← hc₀] at hmax
  have hfull : ∀ x ∈ cpus, residual (uTt x) (uCbs₁' x) ≤ 0 := by
    intro x hx
    refine (hmax x hx).trans ?_
    have := worstFitRun_nonneg (fun u hu => (hpos' u hu).le) hrun₁' c
    rw [residual_eq]
    linarith [not_lt.1 hheavy]
  have hsame : us' = us := eq_of_sublist_of_sum_le hsub hpos
    ((sum_le_capacity (fun u hu => (hpos u hu).le) hrun₁).trans
      (capacity_le_sum (fun u hu => (hpos' u hu).le) hrun₁' hfull))
  -- so both runs reach the same loads before the tasks without load
  rw [hsame, hrun₁] at hrun₁'
  cases hrun₁'
  obtain ⟨c', hc'⟩ : ∃ c', c' ∈ chosen₂ := by
    refine List.exists_mem_of_length_pos ?_
    rw [worstFitRun_length hrun₂, List.length_replicate]
    exact hzeros hk
  have heq : c = c' := hc₀.trans (eq_of_mem_worstFitRun_zeros hrun₂ hc').symm
  exact hheavy (heq ▸ hlight c' (List.mem_append_right _ hc'))

end WorstFit

/-! ### Feasibility -/

/-- The scheduler finds a table for the tasks. -/
def Feasible {U : Type} [Floating U] (G : GlobalScheduler U) (nodeId : Text)
    (tasks : List ClassifiedTask) : Prop :=
  ∃ table, G.generateSchedule 0 nodeId tasks = .ok table

section Feasible

variable {G : GlobalScheduler ℚ} {nodeId : Text} {tasks tasks' : List ClassifiedTask}

/-- The utilisations of the CBS tasks, in the order of their assignment. -/
def cbsLoads (G : GlobalScheduler ℚ) (cbs : List ClassifiedTask) : List ℚ :=
  (G.cbsOrder cbs).map fun i => (cbs.get i).load

theorem perm_cbsLoads (G : GlobalScheduler ℚ) (cbs : List ClassifiedTask) :
    (G.cbsLoads cbs).Perm (cbs.map (·.load)) := by
  have hget := congrArg (List.map fun t : ClassifiedTask => t.load) (List.map_get_finRange cbs)
  rw [List.map_map] at hget
  exact ((G.perm_cbsOrder cbs).map fun i => (cbs.get i).load).trans (.of_eq hget)

theorem cbsLoads_nonneg (G : GlobalScheduler ℚ) (cbs : List ClassifiedTask) :
    ∀ u ∈ G.cbsLoads cbs, 0 ≤ u := by
  intro u hu
  obtain ⟨t, -, rfl⟩ := List.mem_map.1 ((perm_cbsLoads G cbs).mem_iff.1 hu)
  exact t.load_nonneg

theorem taskLoad_assignedTo {cbs : List ClassifiedTask} {chosen : List ℤ}
    (hlen : chosen.length = (G.cbsLoads cbs).length) (c : ℤ) :
    taskLoad (assignedTo c (assignAll cbs ((G.cbsOrder cbs).zip chosen))) =
      (((chosen.zip (G.cbsLoads cbs)).filter (·.1 = c)).map Prod.snd).sum := by
  have hzip : chosen.zip (G.cbsLoads cbs) =
      ((G.cbsOrder cbs).zip chosen).map fun x => (x.2, (cbs.get x.1).load) := by
    rw [cbsLoads, List.zip_map_right, ← List.zip_swap, List.map_map]
    rfl
  rw [taskLoad_perm (perm_assignedTo (by simpa [cbsLoads] using hlen) c), taskLoad, hzip,
    List.filter_map, List.map_map, List.map_map]
  rfl

/-- **A node is feasible** iff worst fit finds a CPU for every CBS task, with some bandwidth left by
the TT tasks, and the TT tasks of every CPU can be placed. -/
theorem feasible_iff (hnat : G.stdSort.Natural) (hne : tasks ≠ []) :
    G.Feasible nodeId tasks ↔
      (∃ chosen uCbs, worstFitRun (G.availableCpus nodeId) (G.ttLoads nodeId (ttTasks tasks))
          unloaded (G.cbsLoads (cbsTasks tasks)) = .ok (chosen, uCbs) ∧
        ∀ c ∈ chosen, G.ttLoads nodeId (ttTasks tasks) c < 78 / 100) ∧
      ∀ c ∈ G.availableCpus nodeId,
        G.Placeable (ttTasksOn (G.availableCpus nodeId) (ttTasks tasks) c) := by
  have hloads : G.cbsLoads (cbsTasks tasks) =
      (G.cbsOrder (cbsTasks tasks)).map fun i => ((cbsTasks tasks).get i).utilization :=
    List.map_congr_left fun i _ => (ClassifiedTask.utilization_eq_load _).symm
  constructor
  · rintro ⟨table, h⟩
    obtain ⟨a, allocated, hst, -⟩ := (generateSchedule_eq_ok hne).1 h
    obtain ⟨chosen, uCbs, hrun, ha⟩ := assignCpus_eq_ok_iff.1 hst.assign
    rw [← hloads] at hrun
    have hlen := worstFitRun_length hrun
    refine ⟨⟨chosen, uCbs, hrun, fun c hc => ?_⟩, fun c hc => ?_⟩
    · have hcpu := ((worstFitRun_loads (cbsLoads_nonneg G _) hrun).2 c hc).1
      obtain ⟨s, hs, rfl⟩ := hst.exists_schedule hcpu
      obtain ⟨s₁, halloc, hid, hu⟩ := hst.exists_placed hs
      have hnil : assignedTo s.cpuId a.cbsTasks ≠ [] := by
        rw [ha]
        exact (assignedTo_ne_nil_iff (by simpa [cbsLoads] using hlen) _).2 hc
      have hadmitted := exists_allocateOnCpu_iff.1 ⟨_, halloc⟩
      rw [hid, hu] at hadmitted
      exact sub_pos.1 (hadmitted hnil).1
    · obtain ⟨placed, hplaced, -⟩ := hst.steps
      have hmem : { (.new c : PerCpuSchedule ℚ) with
          uTt := G.ttLoads nodeId (ttTasks tasks) c, uCbs := uCbs c } ∈ a.cpuSchedules := by
        rw [ha]
        exact List.mem_map.2 ⟨c, mem_stdSet.2 hc, rfl⟩
      obtain ⟨s₁, -, hs₁⟩ := exists_of_forall₂_left hplaced hmem
      refine (exists_placeOnCpu_iff hnat ?_).1 ⟨s₁, hs₁⟩
      rw [ha]
      exact assignedTo_ttTasks _ _ c
  · rintro ⟨⟨chosen, uCbs, hrun, hlight⟩, hplace⟩
    have hlen := worstFitRun_length hrun
    obtain ⟨hsum, hfits⟩ := worstFitRun_loads (cbsLoads_nonneg G _) hrun
    rw [hloads] at hrun
    set a : Assignment ℚ := _ with ha
    have hassign := assignCpus_eq_ok_iff.2 ⟨chosen, uCbs, hrun, ha⟩
    have hblank := blank_assignCpus hassign
    obtain ⟨placed, hplaced⟩ : ∃ placed, a.cpuSchedules.mapM (G.placeOnCpu a.ttTasks) = .ok placed := by
      refine exists_mapM_eq_ok fun s hs => ?_
      obtain ⟨c, hc, rfl⟩ := List.mem_map.1 hs
      exact (exists_placeOnCpu_iff hnat (assignedTo_ttTasks _ _ c)).2 (hplace c (mem_stdSet.1 hc))
    obtain ⟨allocated, halloc⟩ : ∃ allocated, placed.mapM (G.allocateOnCpu a.cbsTasks
        (calculateHyperperiod (periodsOf a.ttTasks))) = .ok allocated := by
      refine exists_mapM_eq_ok fun s₁ hs₁ => ?_
      obtain ⟨s, hs, h₁⟩ := exists_of_forall₂_right (mapM_eq_ok.1 hplaced) hs₁
      have heq := (placeOnCpu_eq_ok h₁ (hblank.ttSlots s hs)).1
      obtain ⟨c, hc, rfl⟩ := List.mem_map.1 hs
      rw [exists_allocateOnCpu_iff, heq]
      intro hnil
      have hc := (assignedTo_ne_nil_iff (by simpa [cbsLoads] using hlen) c).1 hnil
      have hload := hsum c
      rw [show (unloaded c : ℚ) = 0 from Floating.ofDecimal_zero, zero_add, ← taskLoad_assignedTo hlen] at hload
      exact ⟨sub_pos.2 (hlight c hc), hload ▸ (hfits c hc).2⟩
    exact ⟨_, (generateSchedule_eq_ok hne).2 ⟨a, allocated,
      ⟨hassign, placed, mapM_eq_ok.1 hplaced, mapM_eq_ok.1 halloc⟩, rfl⟩⟩

/-! ### Leaving out CBS tasks -/

theorem sorted_cbsLoads (G : GlobalScheduler ℚ) (cbs : List ClassifiedTask) :
    (G.cbsLoads cbs).Pairwise (· ≥ ·) := by
  rw [cbsLoads, List.pairwise_map]
  refine (G.stdSort.sorted (ClassifiedTask.byUtilization_strictWeak.comap cbs.get) _).imp ?_
  intro i j h
  have hle : ¬ (cbs.get i).utilization < ((cbs.get j).utilization : ℚ) := of_decide_eq_false h
  rw [ClassifiedTask.utilization_eq_load, ClassifiedTask.utilization_eq_load] at hle
  exact not_lt.1 hle

theorem cbsLoads_eq_append (G : GlobalScheduler ℚ) (cbs : List ClassifiedTask) :
    ∃ k, G.cbsLoads cbs = (G.cbsLoads cbs).filter (0 < ·) ++ List.replicate k 0 := by
  have hsplit : ∀ us : List ℚ, us.Pairwise (· ≥ ·) → (∀ u ∈ us, 0 ≤ u) →
      ∃ k, us = us.filter (0 < ·) ++ List.replicate k 0 := by
    intro us
    induction us with
    | nil => exact fun _ _ => ⟨0, rfl⟩
    | cons u us ih =>
      intro hsorted hnonneg
      obtain ⟨hu, hsorted⟩ := List.pairwise_cons.1 hsorted
      by_cases hpos : 0 < u
      · obtain ⟨k, hk⟩ := ih hsorted fun v hv => hnonneg v (List.mem_cons_of_mem _ hv)
        refine ⟨k, ?_⟩
        rw [List.filter_cons_of_pos (by simpa using hpos), List.cons_append, ← hk]
      · -- all the rest is zero
        have hzero : ∀ v ∈ u :: us, v = 0 := by
          intro v hv
          have hle : v ≤ u := by
            rcases List.mem_cons.1 hv with rfl | hv
            · exact le_rfl
            · exact hu v hv
          exact le_antisymm (hle.trans (not_lt.1 hpos)) (hnonneg v hv)
        refine ⟨(u :: us).length, ?_⟩
        rw [List.filter_eq_nil_iff.2 fun v hv => by simp [hzero v hv], List.nil_append]
        exact List.eq_replicate_iff.2 ⟨rfl, hzero⟩
  exact hsplit _ (sorted_cbsLoads G cbs) (cbsLoads_nonneg G cbs)

theorem feasible_nil (G : GlobalScheduler ℚ) (nodeId : Text) : G.Feasible nodeId [] := ⟨_, rfl⟩

theorem cbsLoads_sublist {cbs cbs' : List ClassifiedTask} (h : cbs'.Sublist cbs) :
    (G.cbsLoads cbs').Sublist (G.cbsLoads cbs) := by
  refine List.sublist_of_subperm_of_pairwise ?_ (sorted_cbsLoads G cbs') (sorted_cbsLoads G cbs)
  exact ((perm_cbsLoads G cbs').subperm.trans (h.map _).subperm).trans
    (perm_cbsLoads G cbs).symm.subperm

/-- **Leaving out CBS tasks** keeps a node feasible. -/
theorem Feasible.sublist_cbs (hnat : G.stdSort.Natural)
    (hcpus : ∀ c ∈ G.availableCpus nodeId, 0 ≤ c) (h : G.Feasible nodeId tasks)
    (htt : ttTasks tasks' = ttTasks tasks) (hcbs : (cbsTasks tasks').Sublist (cbsTasks tasks)) :
    G.Feasible nodeId tasks' := by
  by_cases hne' : tasks' = []
  · rw [hne']
    exact feasible_nil G nodeId
  have hne : tasks ≠ [] := by
    rintro rfl
    obtain ⟨t, ht⟩ := List.exists_mem_of_ne_nil _ hne'
    by_cases hm : t.mechanism = .tt
    · exact List.not_mem_nil (htt ▸ mem_ttTasks.2 ⟨ht, hm⟩ : t ∈ ttTasks [])
    · exact List.not_mem_nil (hcbs.subset (mem_cbsTasks.2 ⟨ht, hm⟩))
  obtain ⟨⟨chosen, uCbs, hrun, hlight⟩, hplace⟩ := (feasible_iff hnat hne).1 h
  rw [feasible_iff hnat hne', htt]
  refine ⟨?_, hplace⟩
  set cpus := G.availableCpus nodeId
  set uTt := G.ttLoads nodeId (ttTasks tasks)
  have hsub : (G.cbsLoads (cbsTasks tasks')).Sublist (G.cbsLoads (cbsTasks tasks)) :=
    cbsLoads_sublist hcbs
  have hnonneg := cbsLoads_nonneg G (cbsTasks tasks)
  have hfits : WorstFits (((stdSet cpus).map fun c => residual (uTt c) (unloaded c) : List ℚ) :
      Multiset ℚ) (G.cbsLoads (cbsTasks tasks')) :=
    ((exists_worstFitRun_iff hcpus hnonneg).1 ⟨_, hrun⟩).sublist hnonneg hsub
  obtain ⟨⟨chosen', uCbs'⟩, hrun'⟩ :=
    (exists_worstFitRun_iff hcpus (cbsLoads_nonneg G (cbsTasks tasks'))).2 hfits
  refine ⟨chosen', uCbs', hrun', fun c hc => ?_⟩
  -- the tasks with a load, and those without, in both runs
  obtain ⟨k, hk⟩ := cbsLoads_eq_append G (cbsTasks tasks)
  obtain ⟨k', hk'⟩ := cbsLoads_eq_append G (cbsTasks tasks')
  set us := (G.cbsLoads (cbsTasks tasks)).filter (0 < ·) with hus
  set us' := (G.cbsLoads (cbsTasks tasks')).filter (0 < ·) with hus'
  have hpos : ∀ u ∈ us, 0 < u := fun u hu => of_decide_eq_true (List.mem_filter.1 hu).2
  have hzeros : 0 < k' → 0 < k := by
    intro hk0
    have hmem : (0 : ℚ) ∈ G.cbsLoads (cbsTasks tasks) := by
      refine hsub.subset ?_
      rw [hk']
      exact List.mem_append_right _ (List.mem_replicate.2 ⟨hk0.ne', rfl⟩)
    rw [hk] at hmem
    rcases List.mem_append.1 hmem with hmem | hmem
    · exact absurd (hpos 0 hmem) (lt_irrefl 0)
    · exact Nat.pos_of_ne_zero (List.mem_replicate.1 hmem).1
  rw [hk] at hrun
  rw [hk'] at hrun'
  exact lt_of_mem_chosen_of_sublist hcpus hrun hlight hrun' (hsub.filter _) hpos hzeros c hc

/-! ### Leaving out a TT workload -/

theorem dedicatedCpu_eq_iff {cpus : List ℤ} (hnd : cpus.Nodup) {ids : List Text}
    (hids : ids.Nodup) (hlen : ids.length ≤ cpus.length) {w : Text} (hw : w ∈ ids) {i : ℕ}
    (hi : i < cpus.length) : dedicatedCpu cpus ids w = cpus[i] ↔ ids[i]? = some w := by
  have hidx : ids.idxOf w < ids.length := List.idxOf_lt_length_iff.2 hw
  have hmin : min (ids.idxOf w) (cpus.length - 1) = ids.idxOf w := by omega
  rw [dedicatedCpu, hmin, List.getD_eq_getElem _ _ (by omega), hnd.getElem_inj_iff]
  constructor
  · rintro rfl
    rw [List.getElem?_eq_getElem hidx, List.getElem_idxOf]
  · intro h
    obtain ⟨hi', rfl⟩ := List.getElem?_eq_some_iff.1 h
    exact hids.idxOf_getElem i hi'

theorem ttTasksOn_getElem {cpus : List ℤ} (hnd : cpus.Nodup) {tt : List ClassifiedTask}
    (hlen : (ttWorkloadIds tt).length ≤ cpus.length) {i : ℕ} (hi : i < cpus.length) :
    ttTasksOn cpus tt cpus[i] =
      match (ttWorkloadIds tt)[i]? with
      | some w => tt.filter (·.workloadId = w)
      | none => [] := by
  have hiff : ∀ t ∈ tt, (dedicatedCpu cpus (ttWorkloadIds tt) t.workloadId = cpus[i] ↔
      (ttWorkloadIds tt)[i]? = some t.workloadId) := fun t ht =>
    dedicatedCpu_eq_iff hnd (nodup_ttWorkloadIds tt) hlen (mem_ttWorkloadIds.2 ⟨t, ht, rfl⟩) hi
  have hfilter : ttTasksOn cpus tt cpus[i] =
      tt.filter fun t => (ttWorkloadIds tt)[i]? = some t.workloadId :=
    List.filter_congr fun t ht => decide_eq_decide.2 (hiff t ht)
  rw [hfilter]
  rcases Option.eq_none_or_eq_some (ttWorkloadIds tt)[i]? with hnone | ⟨w, hw⟩
  · simp [hnone]
  · simp [hw, eq_comm]

theorem map_ttLoads (hnd : (G.availableCpus nodeId).Nodup) {tt : List ClassifiedTask}
    (hlen : (ttWorkloadIds tt).length ≤ (G.availableCpus nodeId).length) :
    (G.availableCpus nodeId).map (G.ttLoads nodeId tt) =
      ((ttWorkloadIds tt).map fun w => taskLoad (tt.filter (·.workloadId = w))) ++
        List.replicate ((G.availableCpus nodeId).length - (ttWorkloadIds tt).length) 0 := by
  refine List.ext_getElem (by simp; omega) fun i h₁ h₂ => ?_
  rw [List.length_map] at h₁
  rw [List.getElem_map, ttLoads_eq, ttTasksOn_getElem hnd hlen h₁]
  by_cases hi : i < (ttWorkloadIds tt).length
  · rw [List.getElem?_eq_getElem hi, List.getElem_append_left (by simpa using hi),
      List.getElem_map]
  · rw [List.getElem?_eq_none (not_lt.1 hi), List.getElem_append_right (by simpa using hi),
      List.getElem_replicate]
    rfl

theorem placeable_nil (G : GlobalScheduler ℚ) : G.Placeable [] := ⟨_, rfl⟩

section Erase

variable {tt : List ClassifiedTask} {w : Text}

theorem perm_ttWorkloadIds (hw : w ∈ ttWorkloadIds tt) :
    (ttWorkloadIds tt).Perm (w :: ttWorkloadIds (tt.filter (·.workloadId ≠ w))) := by
  refine (List.perm_ext_iff_of_nodup (nodup_ttWorkloadIds tt) (List.nodup_cons.2
    ⟨fun h => (mem_ttWorkloadIds_filter.1 h).2 rfl, nodup_ttWorkloadIds _⟩)).2 fun w' => ?_
  rw [List.mem_cons, mem_ttWorkloadIds_filter]
  by_cases hw' : w' = w
  · simp [hw', hw]
  · simp [hw']

theorem map_residual_unloaded (hnd : (G.availableCpus nodeId).Nodup)
    (uTt : ℤ → ℚ) :
    (((stdSet (G.availableCpus nodeId)).map fun c => residual (uTt c) (unloaded c) : List ℚ) :
      Multiset ℚ) = ((G.availableCpus nodeId).map uTt : Multiset ℚ).map (78 / 100 - ·) := by
  have hperm : (stdSet (G.availableCpus nodeId)).Perm (G.availableCpus nodeId) :=
    (List.perm_ext_iff_of_nodup (nodup_stdSet _) hnd).2 fun _ => mem_stdSet
  rw [Multiset.map_coe, Multiset.coe_eq_coe, List.map_map]
  refine (hperm.map _).trans (.of_eq (List.map_congr_left fun c _ => ?_))
  rw [residual_eq, show (unloaded c : ℚ) = 0 from Floating.ofDecimal_zero, sub_zero]
  rfl

theorem rel_residual_erase (hnd : (G.availableCpus nodeId).Nodup)
    (hlen : (ttWorkloadIds tt).length ≤ (G.availableCpus nodeId).length)
    (hw : w ∈ ttWorkloadIds tt) :
    Multiset.Rel (· ≤ ·)
      (((stdSet (G.availableCpus nodeId)).map fun c =>
        residual (G.ttLoads nodeId tt c) (unloaded c) : List ℚ) : Multiset ℚ)
      (((stdSet (G.availableCpus nodeId)).map fun c =>
        residual (G.ttLoads nodeId (tt.filter (·.workloadId ≠ w)) c) (unloaded c) : List ℚ) :
        Multiset ℚ) := by
  have hperm := perm_ttWorkloadIds hw
  have hlength := hperm.length_eq
  rw [List.length_cons] at hlength
  rw [map_residual_unloaded hnd, map_residual_unloaded hnd, map_ttLoads hnd hlen,
    map_ttLoads hnd (by omega)]
  set ids' := ttWorkloadIds (tt.filter (·.workloadId ≠ w)) with hids'
  set load := fun w' => taskLoad (tt.filter (·.workloadId = w')) with hload
  -- the loads of the other workloads are the same
  have hsame : (ids'.map fun w' => taskLoad ((tt.filter (·.workloadId ≠ w)).filter
      (·.workloadId = w'))) = ids'.map load := by
    refine List.map_congr_left fun w' hw' => ?_
    rw [filter_filter_ne (mem_ttWorkloadIds_filter.1 hw').2]
  have hrest : (G.availableCpus nodeId).length - ids'.length =
      (G.availableCpus nodeId).length - (ttWorkloadIds tt).length + 1 := by omega
  set zeros := List.replicate ((G.availableCpus nodeId).length - (ttWorkloadIds tt).length) (0 : ℚ)
  have hbefore : ((ttWorkloadIds tt).map load ++ zeros).Perm
      (load w :: (ids'.map load ++ zeros)) := (hperm.map load).append_right zeros
  have hafter : (ids'.map load ++ List.replicate ((G.availableCpus nodeId).length - ids'.length)
      (0 : ℚ)).Perm (0 :: (ids'.map load ++ zeros)) := by
    rw [hrest, List.replicate_succ]
    exact List.perm_middle
  rw [hsame, Multiset.coe_eq_coe.2 hbefore, Multiset.coe_eq_coe.2 hafter, ← Multiset.cons_coe,
    ← Multiset.cons_coe, Multiset.map_cons, Multiset.map_cons]
  exact .cons (sub_le_sub_left (taskLoad_nonneg _) _) (Multiset.rel_refl_of_refl_on fun _ _ => le_rfl)

theorem ttTasksOn_erase (hnd : (G.availableCpus nodeId).Nodup)
    (hlen : (ttWorkloadIds tt).length ≤ (G.availableCpus nodeId).length)
    (hw : w ∈ ttWorkloadIds tt) {c : ℤ} (hc : c ∈ G.availableCpus nodeId) :
    ttTasksOn (G.availableCpus nodeId) (tt.filter (·.workloadId ≠ w)) c = [] ∨
      ∃ w' ∈ ttWorkloadIds tt, w' ≠ w ∧
        ttTasksOn (G.availableCpus nodeId) (tt.filter (·.workloadId ≠ w)) c =
          tt.filter (·.workloadId = w') := by
  have hlen' : (ttWorkloadIds (tt.filter (·.workloadId ≠ w))).length ≤
      (G.availableCpus nodeId).length := by
    have := (perm_ttWorkloadIds hw).length_eq
    rw [List.length_cons] at this
    omega
  obtain ⟨i, hi, rfl⟩ := List.getElem_of_mem hc
  rw [ttTasksOn_getElem hnd hlen' hi]
  cases hget : (ttWorkloadIds (tt.filter (·.workloadId ≠ w)))[i]? with
  | none => exact Or.inl rfl
  | some w' =>
    obtain ⟨hw', hne⟩ := mem_ttWorkloadIds_filter.1 (List.mem_of_getElem? hget)
    exact Or.inr ⟨w', hw', hne, filter_filter_ne hne⟩

end Erase

/-- **Leaving out a TT workload** keeps a node feasible when every TT workload has a CPU of its own
and, if there are CBS tasks without load, no TT workload takes all the bandwidth of its CPU. -/
theorem Feasible.erase_tt (hnat : G.stdSort.Natural)
    (hcpus : ∀ c ∈ G.availableCpus nodeId, 0 ≤ c) (hnd : (G.availableCpus nodeId).Nodup)
    (hlen : (ttWorkloadIds (ttTasks tasks)).length ≤ (G.availableCpus nodeId).length) {w : Text}
    (hload : (∀ t ∈ cbsTasks tasks, 0 < t.load) ∨
      ∀ w', w' ≠ w → taskLoad ((ttTasks tasks).filter (·.workloadId = w')) ≠ 78 / 100)
    (h : G.Feasible nodeId tasks) (htt : ttTasks tasks' = (ttTasks tasks).filter (·.workloadId ≠ w))
    (hcbs : cbsTasks tasks' = cbsTasks tasks) : G.Feasible nodeId tasks' := by
  by_cases hw : w ∈ ttWorkloadIds (ttTasks tasks)
  swap
  · refine h.sublist_cbs hnat hcpus (htt.trans (List.filter_eq_self.2 fun t ht => ?_)) (hcbs ▸ .refl _)
    exact decide_eq_true fun heq => hw (mem_ttWorkloadIds.2 ⟨t, ht, heq⟩)
  by_cases hne' : tasks' = []
  · rw [hne']
    exact feasible_nil G nodeId
  have hne : tasks ≠ [] := by
    rintro rfl
    obtain ⟨t, ht, -⟩ := mem_ttWorkloadIds.1 hw
    exact List.not_mem_nil ht
  obtain ⟨⟨chosen, uCbs, hrun, -⟩, hplace⟩ := (feasible_iff hnat hne).1 h
  rw [feasible_iff hnat hne', htt, hcbs]
  set tt := ttTasks tasks
  refine ⟨?_, fun c hc => ?_⟩
  · have hnonneg := cbsLoads_nonneg G (cbsTasks tasks)
    have hfits := ((exists_worstFitRun_iff hcpus hnonneg).1 ⟨_, hrun⟩).mono
      (rel_residual_erase hnd hlen hw)
    obtain ⟨⟨chosen', uCbs'⟩, hrun'⟩ := (exists_worstFitRun_iff hcpus hnonneg).2 hfits
    refine ⟨chosen', uCbs', hrun', fun c hc => ?_⟩
    rcases hload with hpos | hload
    · refine lt_of_mem_chosen (fun u hu => ?_) hrun' hc
      obtain ⟨t, ht, rfl⟩ := List.mem_map.1 ((perm_cbsLoads G _).mem_iff.1 hu)
      exact hpos t ht
    · obtain ⟨hmem, hfit⟩ := (worstFitRun_loads hnonneg hrun').2 c hc
      have hle := worstFitRun_nonneg hnonneg hrun' c
      refine lt_of_le_of_ne (by linarith) ?_
      rw [ttLoads_eq]
      rcases ttTasksOn_erase hnd hlen hw hmem with hnil | ⟨w', -, hne, heq⟩
      · rw [hnil]
        norm_num [taskLoad]
      · rw [heq]
        exact hload w' hne
  · rcases ttTasksOn_erase hnd hlen hw hc with hnil | ⟨w', hw', -, heq⟩
    · rw [hnil]
      exact placeable_nil G
    · -- the workload has moved from the CPU it had before
      obtain ⟨j, hj, rfl⟩ := List.getElem_of_mem hw'
      have hplaced := hplace _ (List.getElem_mem (hj.trans_le hlen))
      rw [ttTasksOn_getElem hnd hlen (hj.trans_le hlen), List.getElem?_eq_getElem hj] at hplaced
      rw [heq]
      exact hplaced

end Feasible

end GlobalScheduler

end Timpani
