import Timpani.Node.Timer
import Mathlib.Algebra.Order.Ring.Nat
import Mathlib.Order.Bounds.Basic

/-!
# The firings of a TimerMaster thread

A thread of `cpu_thread_loop` counts its slots and hyperperiods itself, and
`compute_next_tt_start_for_cpu` works out the slot after the next one a second time.  Both follow
one grid: the offsets of the slots, repeated with the hyperperiod from the epoch on.

* `CpuThread.nextTtStart_eq` : the look-ahead is where the thread goes next;
* `CpuThread.iterate_advance` : the thread after any number of firings;
* `firstHyperperiodStart_eq` : a late thread starts in the first hyperperiod that is still to come;
* `spawn_grid` : **the target times of a thread** are the grid, in order.
-/

namespace Timpani

namespace TimerMaster

theorem succ_div_mod {k n : ℕ} (hn : 0 < n) :
    if k % n + 1 < n then (k + 1) / n = k / n ∧ (k + 1) % n = k % n + 1
    else (k + 1) / n = k / n + 1 ∧ (k + 1) % n = 0 := by
  have hk := Nat.mod_add_div k n
  have hlt := Nat.mod_lt k hn
  split_ifs with h
  · exact (Nat.div_mod_unique hn).2 ⟨by omega, h⟩
  · refine (Nat.div_mod_unique hn).2 ⟨?_, hn⟩
    rw [Nat.mul_succ]
    omega

namespace CpuThread

/-- The time a thread sleeps until. -/
def targetNs (th : CpuThread) : UInt64 :=
  th.currentHyperperiodStart + (th.cpuSlots.get th.nextSlotIdx).offsetNs

/-- What the thread announces as the start of the slot after the one it fires. -/
def nextTtStart (th : CpuThread) : UInt64 :=
  computeNextTtStartForCpu th.cpuSlots th.nextSlotIdx th.currentHyperperiodStart th.hyperperiodNs

/-- **The look-ahead** is the target of the following iteration. -/
theorem nextTtStart_eq (th : CpuThread) (hH : th.hyperperiodNs ≠ 0) :
    th.nextTtStart = th.advance.targetNs := by
  have hidx := th.nextSlotIdx.isLt
  have hne : th.cpuSlots ≠ [] := List.ne_nil_of_length_pos (by omega)
  unfold nextTtStart computeNextTtStartForCpu
  rw [if_neg (by simp [hne, hH])]
  dsimp only
  unfold advance
  split_ifs with hle hlt hlt
  · rw [Nat.mod_eq_of_lt hlt] at hle
    omega
  · -- the last slot of the hyperperiod, which may be the only one
    have hmod : (th.nextSlotIdx + 1 : ℕ) % th.cpuSlots.length = 0 := by
      rw [show (th.nextSlotIdx + 1 : ℕ) = th.cpuSlots.length by omega, Nat.mod_self]
    rw [hmod, List.getElem?_eq_getElem (by omega)]
    rfl
  · rw [Nat.mod_eq_of_lt hlt, List.getElem?_eq_getElem hlt]
    rfl
  · have hmod : (th.nextSlotIdx + 1 : ℕ) % th.cpuSlots.length = 0 := by
      rw [show (th.nextSlotIdx + 1 : ℕ) = th.cpuSlots.length by omega, Nat.mod_self]
    omega

/-- **A thread after `k` firings**, if it starts with the first slot. -/
theorem iterate_advance (th : CpuThread) (h0 : (th.nextSlotIdx : ℕ) = 0) (k : ℕ) :
    advance^[k] th = { th with
      nextSlotIdx := ⟨k % th.cpuSlots.length, Nat.mod_lt k (Nat.zero_lt_of_lt th.nextSlotIdx.isLt)⟩
      currentHyperperiodStart := th.currentHyperperiodStart +
        UInt64.ofNat (k / th.cpuSlots.length) * th.hyperperiodNs } := by
  have hpos : 0 < th.cpuSlots.length := Nat.zero_lt_of_lt th.nextSlotIdx.isLt
  induction k with
  | zero =>
    obtain ⟨slots, H, idx, start⟩ := th
    have hidx : idx = ⟨0, hpos⟩ := Fin.ext h0
    simp [hidx]
  | succ k ih =>
    rw [Function.iterate_succ_apply', ih]
    have hstep := succ_div_mod (k := k) hpos
    unfold advance
    dsimp only
    split_ifs at hstep ⊢ with hlt
    · simp only [hstep.1, hstep.2]
    · simp only [hstep.1, hstep.2, UInt64.ofNat_add, UInt64.add_mul, UInt64.one_mul,
        UInt64.add_assoc, UInt64.reduceOfNat]

theorem targetNs_iterate (th : CpuThread) (h0 : (th.nextSlotIdx : ℕ) = 0) (k : ℕ) :
    (advance^[k] th).targetNs = th.currentHyperperiodStart +
      UInt64.ofNat (k / th.cpuSlots.length) * th.hyperperiodNs +
      (th.cpuSlots.map (·.offsetNs)).getD (k % th.cpuSlots.length) 0 := by
  have hlt : k % th.cpuSlots.length < (th.cpuSlots.map (·.offsetNs)).length := by
    rw [List.length_map]
    exact Nat.mod_lt k (Nat.zero_lt_of_lt th.nextSlotIdx.isLt)
  rw [iterate_advance th h0, List.getD_eq_getElem _ _ hlt, List.getElem_map]
  rfl

end CpuThread

/-! ### The first hyperperiod -/

/-- The number of hyperperiods a thread skips: those that have started when it reads the clock. -/
def skippedPeriods (epochNs hyperperiodNs nowNs : UInt64) : ℕ :=
  if epochNs < nowNs then (nowNs.toNat - epochNs.toNat) / hyperperiodNs.toNat + 1 else 0

variable {E H now : UInt64}

theorem firstHyperperiodStart_eq (hE : 0 < E) :
    firstHyperperiodStart E H now =
      UInt64.ofNat (E.toNat + skippedPeriods E H now * H.toNat) := by
  unfold firstHyperperiodStart skippedPeriods
  rw [if_neg (UInt64.ne_of_lt hE).symm]
  split_ifs with hlt
  · have hdiv : (now - E) / H = UInt64.ofNat ((now.toNat - E.toNat) / H.toNat) := by
      have hle : E ≤ now := UInt64.le_of_lt hlt
      rw [← UInt64.toNat_sub_of_le now E hle, ← UInt64.toNat_div, UInt64.ofNat_toNat]
    rw [hdiv, UInt64.ofNat_add, UInt64.ofNat_mul, UInt64.ofNat_add, UInt64.ofNat_toNat,
      UInt64.ofNat_toNat]
    rfl
  · simp

/-- A late thread starts in the first hyperperiod that starts after its reading of the clock. -/
theorem isLeast_skippedPeriods (hH : 0 < H) (hlt : E < now) :
    IsLeast {n | now.toNat < E.toNat + n * H.toNat} (skippedPeriods E H now) := by
  have hH : 0 < H.toNat := UInt64.lt_iff_toNat_lt.1 hH
  have hlt' := UInt64.lt_iff_toNat_lt.1 hlt
  have hiff : ∀ n, now.toNat < E.toNat + n * H.toNat ↔ (now.toNat - E.toNat) / H.toNat < n := by
    intro n
    rw [Nat.div_lt_iff_lt_mul hH]
    omega
  rw [skippedPeriods, if_pos hlt]
  refine ⟨(hiff _).2 (Nat.lt_succ_self _), fun n hn => ?_⟩
  exact (hiff n).1 hn

/-! ### The grid -/

theorem map_offsetNs_sort (stdSort : StdSort) {slots : List SlotEntry}
    (hsorted : slots.Pairwise fun a b => a.offsetNs ≤ b.offsetNs) :
    (stdSort.sort (fun a b => a.offsetNs < b.offsetNs) slots).map (·.offsetNs) =
      slots.map (·.offsetNs) := by
  have hweak : StrictWeak fun a b : SlotEntry => decide (a.offsetNs < b.offsetNs) :=
    StrictWeak.of_uint64_lt.comap SlotEntry.offsetNs
  have hperm := (stdSort.perm hweak slots).map (·.offsetNs)
  have htoNat : ((stdSort.sort (fun a b => a.offsetNs < b.offsetNs) slots).map
      (·.offsetNs)).map UInt64.toNat = (slots.map (·.offsetNs)).map UInt64.toNat := by
    refine (hperm.map UInt64.toNat).eq_of_pairwise
      (fun a b _ _ (hab : a ≤ b) (hba : b ≤ a) => le_antisymm hab hba) ?_ ?_
    · rw [List.map_map, List.pairwise_map]
      exact (stdSort.sorted hweak slots).imp fun h => by
        simpa [UInt64.lt_iff_toNat_lt] using h
    · rw [List.map_map, List.pairwise_map]
      exact hsorted.imp fun h => UInt64.le_iff_toNat_le.1 h
  exact List.map_injective_iff.2 (fun _ _ => UInt64.toNat.inj) htoNat

/-- The `k`-th point of the grid of `slots` from hyperperiod `n₀` on. -/
def gridNs (slots : List SlotEntry) (E H : UInt64) (n₀ k : ℕ) : ℕ :=
  E.toNat + (n₀ + k / slots.length) * H.toNat +
    ((slots.map (·.offsetNs)).getD (k % slots.length) 0).toNat

section Grid

variable {slots : List SlotEntry} (E : UInt64) (n₀ : ℕ)

theorem gridNs_mul_add (n : ℕ) (i : Fin slots.length) :
    gridNs slots E H n₀ (n * slots.length + i) =
      E.toNat + (n₀ + n) * H.toNat + (slots.get i).offsetNs.toNat := by
  have hpos : 0 < slots.length := Nat.zero_lt_of_lt i.isLt
  obtain ⟨hdiv, hmod⟩ := (Nat.div_mod_unique hpos).2
    (show (i : ℕ) + slots.length * n = n * slots.length + i ∧ (i : ℕ) < slots.length from
      ⟨by rw [Nat.mul_comm, Nat.add_comm], i.isLt⟩)
  have hlt : (i : ℕ) < (slots.map (·.offsetNs)).length := by
    rw [List.length_map]
    exact i.isLt
  rw [gridNs, hdiv, hmod, List.getD_eq_getElem _ _ hlt, List.getElem_map]
  rfl

theorem gridNs_lt (hne : slots ≠ []) (hlt : ∀ e ∈ slots, e.offsetNs < H) (k : ℕ) :
    gridNs slots E H n₀ k < E.toNat + (n₀ + k / slots.length + 1) * H.toNat := by
  have hmod := Nat.mod_lt k (List.length_pos_of_ne_nil hne)
  have hoff := UInt64.lt_iff_toNat_lt.1 (hlt _ (List.getElem_mem hmod))
  rw [gridNs, List.getD_eq_getElem _ _ (by rwa [List.length_map]), List.getElem_map,
    Nat.add_mul _ 1, Nat.one_mul]
  omega

/-- **The grid is increasing**: within a hyperperiod the slots are sorted, and the next one starts
behind all offsets. -/
theorem gridNs_le_succ (hne : slots ≠ [])
    (hsorted : slots.Pairwise fun a b => a.offsetNs ≤ b.offsetNs)
    (hlt : ∀ e ∈ slots, e.offsetNs < H) (k : ℕ) :
    gridNs slots E H n₀ k ≤ gridNs slots E H n₀ (k + 1) := by
  have hpos := List.length_pos_of_ne_nil hne
  have hstep := succ_div_mod (k := k) hpos
  split_ifs at hstep with hin
  · have hle := UInt64.le_iff_toNat_le.1
      (List.pairwise_iff_getElem.1 hsorted _ _ (by omega) hin (Nat.lt_succ_self _))
    rw [gridNs, gridNs, hstep.1, hstep.2, List.getD_eq_getElem _ _ (by rw [List.length_map]; omega),
      List.getD_eq_getElem _ _ (by rwa [List.length_map]), List.getElem_map, List.getElem_map]
    omega
  · have hend : gridNs slots E H n₀ k < E.toNat + (n₀ + k / slots.length + 1) * H.toNat :=
      gridNs_lt _ _ hne hlt k
    have hstart : E.toNat + (n₀ + k / slots.length + 1) * H.toNat ≤
        gridNs slots E H n₀ (k + 1) := by
      rw [gridNs, hstep.1, Nat.add_assoc n₀]
      omega
    omega

end Grid

variable (stdSort : StdSort) {slotTable slots : List SlotEntry} (clock : UInt32 → UInt64)
  {cpu : UInt32}

theorem spawn_targets (hslots : slotTable.filter (·.cpu = cpu) = slots) (hne : slots ≠ [])
    (hsorted : slots.Pairwise fun a b => a.offsetNs ≤ b.offsetNs) (hE : 0 < E) :
    ∃ th, spawn stdSort slotTable H E clock cpu = some th ∧ th.hyperperiodNs = H ∧
      (th.nextSlotIdx : ℕ) = 0 ∧ ∀ k, (CpuThread.advance^[k] th).targetNs =
        UInt64.ofNat (gridNs slots E H (skippedPeriods E H (clock cpu)) k) := by
  subst hslots
  have hmap := map_offsetNs_sort stdSort hsorted
  set slots := slotTable.filter (·.cpu = cpu)
  set sorted := stdSort.sort (fun a b => a.offsetNs < b.offsetNs) slots
  have hlen : sorted.length = slots.length := by simpa using congrArg List.length hmap
  have hpos : 0 < sorted.length := hlen ▸ List.length_pos_of_ne_nil hne
  refine ⟨⟨sorted, H, ⟨0, hpos⟩, firstHyperperiodStart E H (clock cpu)⟩, ?_, rfl, rfl, fun k => ?_⟩
  · exact dif_pos hpos
  · rw [CpuThread.targetNs_iterate _ rfl k]
    dsimp only
    rw [firstHyperperiodStart_eq hE, hlen, hmap, gridNs, Nat.add_mul]
    simp only [UInt64.ofNat_add, UInt64.ofNat_mul, UInt64.ofNat_toNat, UInt64.add_assoc]

/-- **The grid.** The thread of a CPU with slots `slots` fires at `E + n * H + offset` for every
hyperperiod `n` from `n₀` on and every slot in the order of the list, and announces each target one
firing ahead.  The first hyperperiod is the one of the epoch, or for a late thread the first one to
come. -/
theorem spawn_grid (hslots : slotTable.filter (·.cpu = cpu) = slots) (hne : slots ≠ [])
    (hsorted : slots.Pairwise fun a b => a.offsetNs ≤ b.offsetNs)
    (hlt : ∀ e ∈ slots, e.offsetNs < H) (hE : 0 < E) :
    ∃ th n₀, spawn stdSort slotTable H E clock cpu = some th ∧
      (clock cpu ≤ E → n₀ = 0) ∧
      (E < clock cpu → IsLeast {n | (clock cpu).toNat < E.toNat + n * H.toNat} n₀) ∧
      (∀ n, n₀ ≤ n → ∀ i : Fin slots.length,
        E.toNat + n * H.toNat + (slots.get i).offsetNs.toNat < 2 ^ 64 →
        (CpuThread.advance^[(n - n₀) * slots.length + i] th).targetNs.toNat =
          E.toNat + n * H.toNat + (slots.get i).offsetNs.toNat) ∧
      (∀ k, E.toNat + (n₀ + (k + 1) / slots.length + 1) * H.toNat ≤ 2 ^ 64 →
        (CpuThread.advance^[k] th).targetNs ≤ (CpuThread.advance^[k + 1] th).targetNs) ∧
      ∀ k, (CpuThread.advance^[k] th).nextTtStart =
        (CpuThread.advance^[k + 1] th).targetNs := by
  obtain ⟨th, hspawn, hth, h0, htarget⟩ := spawn_targets (H := H) stdSort clock hslots hne
    hsorted hE
  set n₀ := skippedPeriods E H (clock cpu)
  have hH : 0 < H := by
    have hfirst := hlt _ (List.getElem_mem (List.length_pos_of_ne_nil hne))
    rw [UInt64.lt_iff_toNat_lt] at hfirst ⊢
    exact Nat.zero_lt_of_lt hfirst
  have hnat : ∀ k, gridNs slots E H n₀ k < 2 ^ 64 →
      (CpuThread.advance^[k] th).targetNs.toNat = gridNs slots E H n₀ k := by
    intro k hk
    rw [htarget, UInt64.toNat_ofNat_of_lt' hk]
  refine ⟨th, n₀, hspawn, fun hle => if_neg (UInt64.not_lt.2 hle), isLeast_skippedPeriods hH,
    ?_, ?_, ?_⟩
  · intro n hn i hfits
    have hgrid := gridNs_mul_add (H := H) E n₀ (n - n₀) i
    rw [Nat.add_sub_cancel' hn] at hgrid
    rw [hnat _ (hgrid ▸ hfits), hgrid]
  · intro k hk
    have hle := gridNs_le_succ E n₀ hne hsorted hlt k
    have hfits := (gridNs_lt E n₀ hne hlt (k + 1)).trans_le hk
    rw [UInt64.le_iff_toNat_le, hnat k (hle.trans_lt hfits), hnat (k + 1) hfits]
    exact hle
  · intro k
    rw [CpuThread.nextTtStart_eq _ ?_, Function.iterate_succ_apply']
    rw [th.iterate_advance h0, hth]
    exact (UInt64.ne_of_lt hH).symm

/-- A thread with two slots of equal offset that starts in the third hyperperiod. -/
theorem spawn_grid_late :
    let slots : List SlotEntry := [⟨2, 0, 0, 10, 1, 1, text "a"⟩, ⟨2, 1, 40, 10, 2, 1, text "b"⟩,
      ⟨2, 2, 40, 0, 3, 1, text "c"⟩]
    ∃ th n₀, spawn insertionStdSort slots 100 1000 (fun _ => 1250) 2 = some th ∧
      IsLeast {n | 1250 < 1000 + n * 100} n₀ ∧
      (CpuThread.advance^[4] th).targetNs.toNat = 1000 + (n₀ + 1) * 100 + 40 ∧
      (CpuThread.advance^[4] th).nextTtStart = (CpuThread.advance^[5] th).targetNs := by
  intro slots
  obtain ⟨th, n₀, hspawn, -, hlate, hgrid, -, hnext⟩ := spawn_grid (H := 100) (E := 1000)
    insertionStdSort (fun _ => 1250) (show slots.filter (·.cpu = 2) = slots by decide) (by decide)
    (by decide) (by decide) (by decide)
  have hleast : IsLeast {n | 1250 < 1000 + n * 100} n₀ := hlate (by decide)
  refine ⟨th, n₀, hspawn, hleast, ?_, hnext 4⟩
  have hthird : n₀ ≤ 3 := hleast.2 (show 1250 < 1000 + 3 * 100 by decide)
  have htarget := hgrid (n₀ + 1) (Nat.le_succ _) ⟨1, by decide⟩
  rw [Nat.add_sub_cancel_left] at htarget
  exact htarget (show 1000 + (n₀ + 1) * 100 + 40 < 2 ^ 64 by omega)

end TimerMaster

end Timpani
