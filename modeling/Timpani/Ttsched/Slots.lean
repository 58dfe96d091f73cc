import Timpani.Ttsched.Layout
import Mathlib.Data.Finset.Card

/-!
# Clients and TimerMaster agree on the slots

A client looks for its name in the shared memory from index `0` on, and names of tasks that are gone
stay in the memory.  It finds its own slot all the same: when a slot is given to a task, all lower
slots are in use and have just been named after other tasks of the table.

* `Allocated` : what the two passes over a table guarantee;
* `Publisher.Consistent` : the invariant of the shared memory;
* `Publisher.consistent_setScheduleTable` : a table keeps it, whatever was in the memory before;
* `Publisher.slots_agree` : **clients and TimerMaster agree**, after any history of tables;
* `Publisher.not_slots_agree_nul` : names that differ behind a NUL byte only.
-/

namespace Timpani

namespace Ttsched

open TimerMaster (SlotEntry)

theorem find?_finRange_eq_some_iff {n : ℕ} {p : Fin n → Bool} {i : Fin n} :
    (List.finRange n).find? p = some i ↔ p i = true ∧ ∀ j < i, p j = false := by
  rw [List.find?_eq_some_iff_getElem]
  refine and_congr_right fun _ => ⟨?_, fun hlow => ?_⟩
  · rintro ⟨k, hk, hget, hlow⟩ j hj
    have hik : i.val = k := by rw [← hget, List.getElem_finRange]; rfl
    have hjk : j.val < k := hik ▸ Fin.lt_def.1 hj
    have hfalse := hlow j.val hjk
    rw [List.getElem_finRange] at hfalse
    simpa using hfalse
  · refine ⟨i.val, by simp, by simp, fun j hj => ?_⟩
    have hfalse := hlow ⟨j, hj.trans i.isLt⟩ hj
    rw [List.getElem_finRange]
    simpa using hfalse

/-! ### Writing names -/

/-- The slot carries a name. -/
def Shm.Holds (shm : Shm) (i : Fin maxTasks) (name : Text) : Prop :=
  ∀ k < 16, (shm.tasks i).name k = strncpy 15 name k

theorem strncmp_of_holds {shm : Shm} {i : Fin maxTasks} {s : Text} (h : shm.Holds i s)
    (t : Text) : strncmp 15 (shm.tasks i).name (strncpy 15 t) = true ↔ cTake 15 s = cTake 15 t := by
  rw [← strncmp_strncpy, strncmp_iff, strncmp_iff]
  have heq : ∀ k < 16, (shm.tasks i).name k = strncpy 15 s k := h
  refine forall₂_congr fun k hk => ?_
  rw [heq k (by omega)]
  refine imp_congr (forall₂_congr fun j hj => ?_) Iff.rfl
  rw [heq j (by omega)]

theorem run_nameBytes (shm : Shm) (i : Fin maxTasks) (s : Text) (n : ℕ) :
    let shm' := shm.run ((List.range n).map fun k => .setNameByte i k (strncpy 15 s k))
    (∀ k, (shm'.tasks i).name k = if k < n then strncpy 15 s k else (shm.tasks i).name k) ∧
      ∀ j ≠ i, shm'.tasks j = shm.tasks j := by
  induction n with
  | zero => simp
  | succ n ih =>
    rw [List.range_succ, List.map_append, Shm.run_append]
    simp only [List.map_cons, List.map_nil, Shm.run_cons, Shm.run_nil, ShmStep.apply]
    refine ⟨fun k => ?_, fun j hj => ?_⟩
    · rw [Shm.tasks_modifyTask_self]
      dsimp only
      by_cases hk : k = n
      · subst hk
        rw [Function.update_self, if_pos (Nat.lt_succ_self k)]
      · rw [Function.update_of_ne hk, ih.1]
        exact if_congr (by omega) rfl rfl
    · rw [Shm.tasks_modifyTask_of_ne _ _ hj, ih.2 j hj]

theorem run_writeName (shm : Shm) (i : Fin maxTasks) (s : Text) :
    (shm.run (writeName i s)).Holds i s ∧
      ∀ j ≠ i, (shm.run (writeName i s)).tasks j = shm.tasks j := by
  obtain ⟨hname, hother⟩ := run_nameBytes shm i s 16
  exact ⟨fun k hk => (hname k).trans (if_pos hk), hother⟩

/-! ### The two passes -/

/-- The state of the passes over a table after some of its entries. -/
structure Allocated (slotTable : List SlotEntry) (prev : ShmMapping) (A : Allocation) : Prop where
  used_iff : ∀ i, A.usedSlots i = true ↔ ∃ h : UInt64, A.taskHashToShmIdx[h]? = some i
  inj : ∀ (h h' : UInt64) i, A.taskHashToShmIdx[h]? = some i →
    A.taskHashToShmIdx[h']? = some i → h = h'
  /-- The slots in use carry the names of their tasks. -/
  named : ∀ (h : UInt64) i, A.taskHashToShmIdx[h]? = some i →
    ∃ e ∈ slotTable, e.taskIdHash = h ∧ ∀ shm, (Shm.run shm A.writes).Holds i e.taskName
  /-- The other ones are left alone. -/
  unused : ∀ shm i, A.usedSlots i = false → (Shm.run shm A.writes).tasks i = shm.tasks i
  /-- A slot was kept, or all lower slots are in use. -/
  lowest : ∀ (h : UInt64) i, A.taskHashToShmIdx[h]? = some i →
    prev[h]? = some i ∨ (prev[h]? = none ∧ ∀ j < i, A.usedSlots j = true)

theorem allocated_empty (slotTable : List SlotEntry) (prev : ShmMapping) :
    Allocated slotTable prev .empty where
  used_iff := by simp [Allocation.empty]
  inj := by simp [Allocation.empty]
  named := by simp [Allocation.empty]
  unused := by simp [Allocation.empty]
  lowest := by simp [Allocation.empty]

section Passes

variable {slotTable : List SlotEntry} {prev : ShmMapping} {A : Allocation} {entry : SlotEntry}
  {idx : Fin maxTasks} {isNew : Bool}

theorem getElem?_assign (h : UInt64) : (A.assign entry idx isNew).taskHashToShmIdx[h]? =
    if entry.taskIdHash = h then some idx else A.taskHashToShmIdx[h]? := by
  simp only [Allocation.assign, Std.ExtTreeMap.getElem?_insert, Std.LawfulEqOrd.compare_eq_iff_eq]

theorem usedSlots_assign (i : Fin maxTasks) :
    (A.assign entry idx isNew).usedSlots i = true ↔ i = idx ∨ A.usedSlots i = true := by
  by_cases hi : i = idx
  · simp [Allocation.assign, hi]
  · simp [Allocation.assign, hi]

theorem run_assign (shm : Shm) :
    (shm.run (A.assign entry idx isNew).writes).Holds idx entry.taskName ∧
      ∀ j ≠ idx, (shm.run (A.assign entry idx isNew).writes).tasks j =
        (shm.run A.writes).tasks j := by
  obtain ⟨hname, hother⟩ := run_writeName (shm.run A.writes) idx entry.taskName
  simp only [Allocation.assign, Shm.run_append]
  cases isNew with
  | false =>
    simp only [Bool.false_eq_true, if_false, Shm.run_nil]
    exact ⟨hname, hother⟩
  | true =>
    simp only [if_true, Shm.run_cons, Shm.run_nil, ShmStep.apply]
    refine ⟨fun k hk => ?_, fun j hj => ?_⟩
    · rw [Shm.tasks_modifyTask_self]
      exact hname k hk
    · rw [Shm.tasks_modifyTask_of_ne _ _ hj]
      exact hother j hj

/-- **A slot is given away** that is free, to a task that has none. -/
theorem Allocated.assign (h : Allocated slotTable prev A)
    (hnone : A.taskHashToShmIdx[entry.taskIdHash]? = none) (hfree : A.usedSlots idx = false)
    (hmem : entry ∈ slotTable)
    (hlow : prev[entry.taskIdHash]? = some idx ∨
      (prev[entry.taskIdHash]? = none ∧ ∀ j < idx, A.usedSlots j = true)) :
    Allocated slotTable prev (A.assign entry idx isNew) := by
  -- the slot belongs to nobody else
  have hnew : ∀ x : UInt64, A.taskHashToShmIdx[x]? ≠ some idx := fun x hx => by
    rw [(h.used_iff idx).2 ⟨x, hx⟩] at hfree
    cases hfree
  refine ⟨fun i => ?_, fun x x' i hx hx' => ?_, fun x i hx => ?_, fun shm i hi => ?_,
    fun x i hx => ?_⟩
  · rw [usedSlots_assign, h.used_iff]
    simp only [getElem?_assign]
    constructor
    · rintro (rfl | ⟨x, hx⟩)
      · exact ⟨entry.taskIdHash, if_pos rfl⟩
      · refine ⟨x, ?_⟩
        rw [if_neg, hx]
        rintro rfl
        rw [hnone] at hx
        cases hx
    · rintro ⟨x, hx⟩
      split_ifs at hx
      · exact Or.inl (Option.some.inj hx).symm
      · exact Or.inr ⟨x, hx⟩
  · rw [getElem?_assign] at hx hx'
    split_ifs at hx hx' with heq heq'
    · exact heq.symm.trans heq'
    · cases hx
      exact absurd hx' (hnew x')
    · cases hx'
      exact absurd hx (hnew x)
    · exact h.inj x x' i hx hx'
  · rw [getElem?_assign] at hx
    split_ifs at hx with heq
    · cases hx
      exact ⟨entry, hmem, heq, fun shm => (run_assign shm).1⟩
    · have hi : i ≠ idx := by
        rintro rfl
        exact hnew x hx
      obtain ⟨e, he, hash, hholds⟩ := h.named x i hx
      refine ⟨e, he, hash, fun shm k hk => ?_⟩
      rw [(run_assign shm).2 i hi]
      exact hholds shm k hk
  · have hnot : ¬ (i = idx ∨ A.usedSlots i = true) := by
      rw [← (@usedSlots_assign A entry idx isNew i), hi]
      exact Bool.false_ne_true
    rw [not_or, Bool.not_eq_true] at hnot
    rw [(run_assign shm).2 i hnot.1]
    exact h.unused shm i hnot.2
  · have hmono : ∀ j, A.usedSlots j = true → (A.assign entry idx isNew).usedSlots j = true :=
      fun j hj => (usedSlots_assign j).2 (Or.inr hj)
    rw [getElem?_assign] at hx
    split_ifs at hx with heq
    · cases hx
      rw [← heq]
      exact hlow.imp_right fun hlow => ⟨hlow.1, fun j hj => hmono j (hlow.2 j hj)⟩
    · exact (h.lowest x i hx).imp_right fun hlow => ⟨hlow.1, fun j hj => hmono j (hlow.2 j hj)⟩

theorem getElem?_assign_of_some {x : UInt64} {i : Fin maxTasks}
    (hnone : A.taskHashToShmIdx[entry.taskIdHash]? = none)
    (hx : A.taskHashToShmIdx[x]? = some i) :
    (A.assign entry idx isNew).taskHashToShmIdx[x]? = some i := by
  rw [getElem?_assign, if_neg, hx]
  rintro rfl
  rw [hnone] at hx
  cases hx

/-- **The first pass**: what an entry adds. -/
theorem Allocated.keepStep (h : Allocated slotTable prev A)
    (hprev : ∀ (x x' : UInt64) i, prev[x]? = some i → prev[x']? = some i → x = x')
    (hkept : ∀ (x : UInt64) i, A.taskHashToShmIdx[x]? = some i → prev[x]? = some i)
    (hmem : entry ∈ slotTable) :
    let A' := A.keepStep prev entry
    Allocated slotTable prev A' ∧
      (∀ (x : UInt64) i, A'.taskHashToShmIdx[x]? = some i → prev[x]? = some i) ∧
      (∀ (x : UInt64) i, A.taskHashToShmIdx[x]? = some i → A'.taskHashToShmIdx[x]? = some i) ∧
      ∀ i, prev[entry.taskIdHash]? = some i → A'.taskHashToShmIdx[entry.taskIdHash]? = some i := by
  unfold Allocation.keepStep
  split_ifs with hin
  · refine ⟨h, hkept, fun _ _ hx => hx, fun i hi => ?_⟩
    obtain ⟨j, hj⟩ := Option.isSome_iff_exists.1 (Std.ExtTreeMap.mem_iff_isSome_getElem?.1 hin)
    rw [hj, ← hi, ← hkept _ j hj]
  · have hnone : A.taskHashToShmIdx[entry.taskIdHash]? = none := by
      rwa [Std.ExtTreeMap.mem_iff_isSome_getElem?, Bool.not_eq_true, Option.isSome_eq_false_iff,
        Option.isNone_iff_eq_none] at hin
    cases hidx : prev[entry.taskIdHash]? with
    | none => exact ⟨h, hkept, fun _ _ hx => hx, nofun⟩
    | some idx =>
      -- a task with the same slot in the previous table would be the same task
      have hfree : A.usedSlots idx = false := by
        rw [← Bool.not_eq_true, h.used_iff]
        rintro ⟨x, hx⟩
        rw [hprev _ _ idx hidx (hkept x idx hx), hx] at hnone
        cases hnone
      simp only [hfree, Bool.false_eq_true, if_false]
      refine ⟨h.assign hnone hfree hmem (Or.inl hidx), fun x i hx => ?_,
        fun x i => getElem?_assign_of_some hnone, fun i hi => ?_⟩
      · rw [getElem?_assign] at hx
        split_ifs at hx with heq
        · rw [← heq, hidx, hx]
        · exact hkept x i hx
      · rw [getElem?_assign, if_pos rfl, hi]

theorem Allocated.exists_free (h : Allocated slotTable prev A)
    (hcount : (slotTable.map (·.taskIdHash)).dedup.length ≤ maxTasks) (hmem : entry ∈ slotTable)
    (hnone : A.taskHashToShmIdx[entry.taskIdHash]? = none) : ∃ i, A.usedSlots i = false := by
  by_contra hall
  push Not at hall
  have howner : ∀ i, ∃ x : UInt64, A.taskHashToShmIdx[x]? = some i :=
    fun i => (h.used_iff i).1 (Bool.not_eq_false _ ▸ hall i)
  choose owner howner using howner
  have hinj : Function.Injective owner := fun i j hij => by
    have hi := howner i
    rw [hij, howner j] at hi
    exact (Option.some.inj hi).symm
  -- the owners are tasks of the table other than this one
  have hsub : Finset.univ.image owner ⊆
      (slotTable.map (·.taskIdHash)).toFinset.erase entry.taskIdHash := by
    intro x hx
    obtain ⟨i, -, rfl⟩ := Finset.mem_image.1 hx
    obtain ⟨e, he, hash, -⟩ := h.named _ i (howner i)
    refine Finset.mem_erase.2 ⟨fun heq => ?_, List.mem_toFinset.2 (hash ▸ List.mem_map_of_mem he)⟩
    rw [← heq, howner i] at hnone
    cases hnone
  have hcard := Finset.card_le_card hsub
  rw [Finset.card_image_of_injective _ hinj, Finset.card_univ, Fintype.card_fin,
    Finset.card_erase_of_mem (List.mem_toFinset.2 (List.mem_map_of_mem hmem)),
    List.card_toFinset] at hcard
  have hpos : 0 < maxTasks := by decide
  omega

/-- **The second pass**: what an entry adds. -/
theorem Allocated.newStep (h : Allocated slotTable prev A)
    (hkept : A.taskHashToShmIdx[entry.taskIdHash]? = none → prev[entry.taskIdHash]? = none)
    (hmem : entry ∈ slotTable) :
    let A' := A.newStep entry
    Allocated slotTable prev A' ∧
      (∀ (x : UInt64) i, A.taskHashToShmIdx[x]? = some i → A'.taskHashToShmIdx[x]? = some i) ∧
      ((slotTable.map (·.taskIdHash)).dedup.length ≤ maxTasks →
        ∃ i, A'.taskHashToShmIdx[entry.taskIdHash]? = some i) := by
  unfold Allocation.newStep
  split_ifs with hin
  · exact ⟨h, fun _ _ hx => hx,
      fun _ => Option.isSome_iff_exists.1 (Std.ExtTreeMap.mem_iff_isSome_getElem?.1 hin)⟩
  · have hnone : A.taskHashToShmIdx[entry.taskIdHash]? = none := by
      rwa [Std.ExtTreeMap.mem_iff_isSome_getElem?, Bool.not_eq_true, Option.isSome_eq_false_iff,
        Option.isNone_iff_eq_none] at hin
    cases hfind : (List.finRange maxTasks).find? (!A.usedSlots ·) with
    | none =>
      refine ⟨h, fun _ _ hx => hx, fun hcount => ?_⟩
      obtain ⟨i, hi⟩ := h.exists_free hcount hmem hnone
      have := List.find?_eq_none.1 hfind i (List.mem_finRange i)
      simp [hi] at this
    | some idx =>
      obtain ⟨hfree, hlow⟩ := find?_finRange_eq_some_iff.1 hfind
      have hlow : ∀ j < idx, A.usedSlots j = true := fun j hj => by simpa using hlow j hj
      exact ⟨h.assign hnone (by simpa using hfree) hmem (Or.inr ⟨hkept hnone, hlow⟩),
        fun x i => getElem?_assign_of_some hnone,
        fun _ => ⟨idx, by rw [getElem?_assign, if_pos rfl]⟩⟩

variable {done : List SlotEntry}

theorem foldl_keepStep
    (hprev : ∀ (x x' : UInt64) i, prev[x]? = some i → prev[x']? = some i → x = x')
    (hmem : done ⊆ slotTable) :
    let A := done.foldl (Allocation.keepStep prev) .empty
    Allocated slotTable prev A ∧
      (∀ (x : UInt64) i, A.taskHashToShmIdx[x]? = some i → prev[x]? = some i) ∧
      ∀ e ∈ done, ∀ i, prev[e.taskIdHash]? = some i →
        A.taskHashToShmIdx[e.taskIdHash]? = some i := by
  induction done using List.reverseRecOn with
  | nil => exact ⟨allocated_empty _ _, by simp [Allocation.empty], by simp⟩
  | append_singleton done e ih =>
    obtain ⟨halloc, hkept, hall⟩ := ih fun x hx => hmem (List.mem_append_left _ hx)
    obtain ⟨halloc', hkept', hmono, hnew⟩ := halloc.keepStep hprev hkept
      (hmem (List.mem_append_right _ (List.mem_singleton_self e)))
    rw [List.foldl_append, List.foldl_cons, List.foldl_nil]
    refine ⟨halloc', hkept', fun x hx i hi => ?_⟩
    rcases List.mem_append.1 hx with hx | hx
    · exact hmono _ _ (hall x hx i hi)
    · rw [List.mem_singleton.1 hx] at hi ⊢
      exact hnew i hi

/-- The second pass, from a state in which all tasks of the previous table have their slots. -/
theorem foldl_newStep (h : Allocated slotTable prev A)
    (hall : ∀ e ∈ slotTable, ∀ i, prev[e.taskIdHash]? = some i →
      A.taskHashToShmIdx[e.taskIdHash]? = some i)
    (hmem : done ⊆ slotTable) :
    let A' := done.foldl Allocation.newStep A
    Allocated slotTable prev A' ∧
      (∀ (x : UInt64) i, A.taskHashToShmIdx[x]? = some i → A'.taskHashToShmIdx[x]? = some i) ∧
      ((slotTable.map (·.taskIdHash)).dedup.length ≤ maxTasks →
        ∀ e ∈ done, ∃ i, A'.taskHashToShmIdx[e.taskIdHash]? = some i) := by
  induction done using List.reverseRecOn with
  | nil => exact ⟨h, fun _ _ hx => hx, by simp⟩
  | append_singleton done e ih =>
    have he := hmem (List.mem_append_right _ (List.mem_singleton_self e))
    obtain ⟨halloc, hmono, hsome⟩ := ih fun x hx => hmem (List.mem_append_left _ hx)
    have hkept : (done.foldl Allocation.newStep A).taskHashToShmIdx[e.taskIdHash]? = none →
        prev[e.taskIdHash]? = none := by
      intro hnone
      by_contra hne
      obtain ⟨i, hi⟩ := Option.ne_none_iff_exists'.1 hne
      rw [hmono _ _ (hall e he i hi)] at hnone
      cases hnone
    obtain ⟨halloc', hmono', hnew⟩ := halloc.newStep hkept he
    rw [List.foldl_append, List.foldl_cons, List.foldl_nil]
    refine ⟨halloc', fun x i hx => hmono' x i (hmono x i hx), fun hcount x hx => ?_⟩
    rcases List.mem_append.1 hx with hx | hx
    · obtain ⟨i, hi⟩ := hsome hcount x hx
      exact ⟨i, hmono' _ i hi⟩
    · rw [List.mem_singleton.1 hx]
      exact hnew hcount

end Passes

/-- **The allocation for a table.** Tasks of the previous table have kept their slots, and if there
are enough slots every task of the table has one. -/
theorem allocate_spec {prev : ShmMapping} {slotTable : List SlotEntry}
    (hprev : ∀ (x x' : UInt64) i, prev[x]? = some i → prev[x']? = some i → x = x') :
    let A := allocate prev slotTable
    Allocated slotTable prev A ∧
      (∀ e ∈ slotTable, ∀ i, prev[e.taskIdHash]? = some i →
        A.taskHashToShmIdx[e.taskIdHash]? = some i) ∧
      ((slotTable.map (·.taskIdHash)).dedup.length ≤ maxTasks →
        ∀ e ∈ slotTable, ∃ i, A.taskHashToShmIdx[e.taskIdHash]? = some i) := by
  obtain ⟨halloc, -, hall⟩ := foldl_keepStep hprev (List.Subset.refl slotTable)
  obtain ⟨halloc', hmono, hsome⟩ := foldl_newStep halloc hall (List.Subset.refl slotTable)
  exact ⟨halloc', fun e he i hi => hmono _ i (hall e he i hi), hsome⟩

/-! ### A publication as a whole -/

theorem totalSlots_spec (mapping : ShmMapping) :
    totalSlots mapping ≤ maxTasks ∧
      ∀ (h : UInt64) i, mapping[h]? = some i → i.val < totalSlots mapping := by
  have hfold : ∀ (l : List (UInt64 × Fin maxTasks)) (n : ℕ), n ≤ maxTasks →
      let total := l.foldl (fun total kv => if kv.2.val + 1 > total then kv.2.val + 1 else total) n
      n ≤ total ∧ total ≤ maxTasks ∧ ∀ kv ∈ l, kv.2.val < total := by
    intro l
    induction l with
    | nil => intro n hn; simp [hn]
    | cons kv l ih =>
      intro n hn
      have hkv := kv.2.isLt
      obtain ⟨hle, hmax, hall⟩ := ih (if kv.2.val + 1 > n then kv.2.val + 1 else n)
        (by split_ifs <;> omega)
      have hstart : n ≤ (if kv.2.val + 1 > n then kv.2.val + 1 else n) ∧
          kv.2.val < (if kv.2.val + 1 > n then kv.2.val + 1 else n) := by split_ifs <;> omega
      rw [List.foldl_cons]
      refine ⟨hstart.1.trans hle, hmax, fun x hx => ?_⟩
      rcases List.mem_cons.1 hx with rfl | hx
      · exact hstart.2.trans_le hle
      · exact hall x hx
  obtain ⟨-, hmax, hall⟩ := hfold mapping.toList 0 (Nat.zero_le _)
  exact ⟨hmax, fun h i hi => hall (h, i) (Std.ExtTreeMap.mem_toList_iff_getElem?_eq_some.2 hi)⟩

theorem name_run_wakeAll (l : List (Fin maxTasks)) (n : ℕ) (shm : Shm) (i : Fin maxTasks) :
    ((shm.run (l.flatMap fun i => [.addCounter i, .futexWake i n])).tasks i).name =
      (shm.tasks i).name := by
  induction l generalizing shm with
  | nil => rfl
  | cons j l ih =>
    rw [List.flatMap_cons, Shm.run_append, ih]
    simp only [Shm.run_cons, Shm.run_nil, ShmStep.apply]
    by_cases hij : i = j
    · rw [hij, Shm.tasks_modifyTask_self]
    · rw [Shm.tasks_modifyTask_of_ne _ _ hij]

theorem run_publication (shm : Shm) (prev : ShmMapping) (slotTable : List SlotEntry) :
    let A := allocate prev slotTable
    let shm' := shm.run (publication prev slotTable)
    shm'.magic = magicWord ∧
      shm'.nTasks = UInt32.ofNat (totalSlots A.taskHashToShmIdx) ∧
      ∃ shm₁ : Shm, (∀ i, (shm₁.tasks i).name = (shm.tasks i).name) ∧
        shm'.tasks = (shm₁.run A.writes).tasks := by
  unfold publication
  simp only [List.cons_append, Shm.run_cons, Shm.run_append, Shm.run_nil]
  refine ⟨rfl, rfl, _, fun i => ?_, rfl⟩
  exact name_run_wakeAll _ _ _ i

namespace Publisher

/-- **The invariant of the shared memory**: the slots belong to one task each and carry its name, no
lower slot carries it, and the slots are announced. -/
structure Consistent (name : UInt64 → Text) (p : Publisher) : Prop where
  inj : ∀ (h h' : UInt64) i, p.taskHashToShmIdx[h]? = some i →
    p.taskHashToShmIdx[h']? = some i → h = h'
  holds : ∀ (h : UInt64) i, p.taskHashToShmIdx[h]? = some i → p.shm.Holds i (name h)
  first : ∀ (h : UInt64) i, p.taskHashToShmIdx[h]? = some i → ∀ j < i,
    strncmp 15 (p.shm.tasks j).name (strncpy 15 (name h)) = false
  ready : ∀ (h : UInt64) i, p.taskHashToShmIdx[h]? = some i →
    p.shm.magic = magicWord ∧ i.val < p.shm.nTasks.toNat

variable {name : UInt64 → Text} {p : Publisher} {slots : List SlotEntry}

theorem consistent_new (name : UInt64 → Text) (shm : Shm) : Consistent name (new shm) where
  inj := by simp [new]
  holds := by simp [new]
  first := by simp [new]
  ready := by simp [new]

theorem Consistent.findTaskSlot (h : Consistent name p) {x : UInt64} {i : Fin maxTasks}
    (hx : p.taskHashToShmIdx[x]? = some i) :
    Ttsched.findTaskSlot p.shm (strncpy 15 (name x)) = some i := by
  obtain ⟨hmagic, hlt⟩ := h.ready x i hx
  rw [Ttsched.findTaskSlot, if_neg (not_not.2 hmagic), find?_finRange_eq_some_iff]
  refine ⟨?_, fun j hj => ?_⟩
  · rw [Bool.and_eq_true, decide_eq_true_eq]
    exact ⟨hlt, (strncmp_of_holds (h.holds x i hx) _).2 rfl⟩
  · rw [h.first x i hx j hj, Bool.and_false]

/-- The conditions on a table: not too many tasks, with their names, which C code can tell apart. -/
structure Publishable (name : UInt64 → Text) (slots : List SlotEntry) : Prop where
  count : (slots.map (·.taskIdHash)).dedup.length ≤ maxTasks
  name_eq : ∀ e ∈ slots, e.taskName = name e.taskIdHash
  distinct : ∀ e ∈ slots, ∀ e' ∈ slots,
    cTake 15 (name e.taskIdHash) = cTake 15 (name e'.taskIdHash) → e.taskIdHash = e'.taskIdHash

theorem Publishable.sort (h : Publishable name slots) (stdSort : StdSort) :
    Publishable name (TimerMaster.setScheduleTable stdSort slots) := by
  have hperm : (TimerMaster.setScheduleTable stdSort slots).Perm slots :=
    stdSort.perm (StrictWeak.of_uint64_lt.comap SlotEntry.offsetNs) slots
  refine ⟨?_, fun e he => h.name_eq e (hperm.mem_iff.1 he), fun e he e' he' =>
    h.distinct e (hperm.mem_iff.1 he) e' (hperm.mem_iff.1 he')⟩
  rw [(hperm.map _).dedup.length_eq]
  exact h.count

/-- **A table keeps the invariant.** -/
theorem Consistent.publish (h : Consistent name p) (ht : Publishable name slots) :
    Consistent name
      { shm := p.shm.run (publication p.taskHashToShmIdx slots)
        taskHashToShmIdx := (allocate p.taskHashToShmIdx slots).taskHashToShmIdx } := by
  obtain ⟨halloc, -, -⟩ := allocate_spec h.inj
  obtain ⟨hmagic, hn, shm₁, hnames, htasks⟩ := run_publication p.shm p.taskHashToShmIdx slots
  set A := allocate p.taskHashToShmIdx slots
  have hholds : ∀ (x : UInt64) i, A.taskHashToShmIdx[x]? = some i →
      (p.shm.run (publication p.taskHashToShmIdx slots)).Holds i (name x) := by
    intro x i hx k hk
    obtain ⟨e, he, rfl, hholds⟩ := halloc.named x i hx
    rw [htasks, ← ht.name_eq e he]
    exact hholds shm₁ k hk
  refine ⟨halloc.inj, hholds, fun x i hx j hj => ?_, fun x i hx => ⟨hmagic, ?_⟩⟩
  · cases hused : A.usedSlots j with
    | true =>
      -- the lower slot carries the name of another task of the table
      obtain ⟨x', hx'⟩ := (halloc.used_iff j).1 hused
      rw [← Bool.not_eq_true, strncmp_of_holds (hholds x' j hx')]
      intro heq
      obtain ⟨e, he, rfl, -⟩ := halloc.named x i hx
      obtain ⟨e', he', rfl, -⟩ := halloc.named x' j hx'
      rw [ht.distinct e' he' e he heq, hx] at hx'
      exact hj.ne (Option.some.inj hx').symm
    | false =>
      -- the task is an old one, and nothing was written to the lower slot
      rw [htasks, halloc.unused shm₁ j hused, hnames]
      rcases halloc.lowest x i hx with hold | ⟨-, hlow⟩
      · exact h.first x i hold j hj
      · rw [hlow j hj] at hused
        cases hused
  · obtain ⟨hmax, hall⟩ := totalSlots_spec A.taskHashToShmIdx
    rw [hn, UInt32.toNat_ofNat_of_lt' (hmax.trans_lt (by decide))]
    exact hall x i hx

theorem getElem?_publish (h : Consistent name p) (ht : Publishable name slots) :
    let mapping := (allocate p.taskHashToShmIdx slots).taskHashToShmIdx
    (∀ x : UInt64, (∃ i, mapping[x]? = some i) ↔ ∃ e ∈ slots, e.taskIdHash = x) ∧
      ∀ (x : UInt64) i, p.taskHashToShmIdx[x]? = some i → (∃ e ∈ slots, e.taskIdHash = x) →
        mapping[x]? = some i := by
  obtain ⟨halloc, hkept, hsome⟩ := allocate_spec h.inj
  refine ⟨fun x => ⟨?_, ?_⟩, ?_⟩
  · rintro ⟨i, hx⟩
    obtain ⟨e, he, hash, -⟩ := halloc.named x i hx
    exact ⟨e, he, hash⟩
  · rintro ⟨e, he, rfl⟩
    exact hsome ht.count e he
  · rintro x i hx ⟨e, he, rfl⟩
    exact hkept e he i hx

/-! ### Histories of tables -/

/-- TimerMaster after a history of tables. -/
def afterTables (stdSort : StdSort) (shm : Shm) (tables : List (List SlotEntry)) : Publisher :=
  tables.foldl (setScheduleTable stdSort) (new shm)

theorem consistent_afterTables (stdSort : StdSort) (shm : Shm) {tables : List (List SlotEntry)}
    (ht : ∀ slots ∈ tables, Publishable name slots) :
    Consistent name (afterTables stdSort shm tables) := by
  induction tables using List.reverseRecOn with
  | nil => exact consistent_new name shm
  | append_singleton done slots ih =>
    rw [afterTables, List.foldl_append, List.foldl_cons, List.foldl_nil]
    have hdone := ih fun t h => ht t (List.mem_append_left _ h)
    exact hdone.publish
      ((ht slots (List.mem_append_right _ (List.mem_singleton_self _))).sort stdSort)

/-- **Clients and TimerMaster agree.** After any history of tables the map is defined on exactly the
tasks of the last table, gives no slot twice and leaves tasks where they were; and a client that
searches for the name of a task finds the slot whose counter `wake_task` increments for it. -/
theorem slots_agree (stdSort : StdSort) (shm : Shm) (name : UInt64 → Text)
    (tables : List (List SlotEntry)) (slots : List SlotEntry)
    (hcount : ∀ t ∈ tables ++ [slots], (t.map (·.taskIdHash)).dedup.length ≤ maxTasks)
    (hname : ∀ t ∈ tables ++ [slots], ∀ e ∈ t, e.taskName = name e.taskIdHash)
    (hdistinct : ∀ t ∈ tables ++ [slots], ∀ e ∈ t, ∀ t' ∈ tables ++ [slots], ∀ e' ∈ t',
      cTake 15 e.taskName = cTake 15 e'.taskName → e.taskIdHash = e'.taskIdHash) :
    let p := afterTables stdSort shm tables
    let p' := p.setScheduleTable stdSort slots
    (∀ h : UInt64, (∃ i, p'.taskHashToShmIdx[h]? = some i) ↔ ∃ e ∈ slots, e.taskIdHash = h) ∧
      (∀ (h h' : UInt64) i, p'.taskHashToShmIdx[h]? = some i →
        p'.taskHashToShmIdx[h']? = some i → h = h') ∧
      (∀ (h : UInt64) i, p.taskHashToShmIdx[h]? = some i → (∃ e ∈ slots, e.taskIdHash = h) →
        p'.taskHashToShmIdx[h]? = some i) ∧
      ∀ e ∈ slots, ∃ i : Fin maxTasks,
        findTaskSlot p'.shm (strncpy 15 e.taskName) = some i ∧
        (p'.wakeTask e.taskIdHash).shm =
          p'.shm.modifyTask i fun t => { t with counter := t.counter + 1 } := by
  intro p p'
  have ht : ∀ t ∈ tables ++ [slots], Publishable name t := fun t h => ⟨hcount t h, hname t h,
    fun e he e' he' => by
      rw [← hname t h e he, ← hname t h e' he']
      exact hdistinct t h e he t h e' he'⟩
  have hold := consistent_afterTables stdSort shm fun t h => ht t (List.mem_append_left _ h)
  have hslots := ht slots (List.mem_append_right _ (List.mem_singleton_self _))
  have hnew : Consistent name p' := hold.publish (hslots.sort stdSort)
  have hmem : ∀ {e}, e ∈ TimerMaster.setScheduleTable stdSort slots ↔ e ∈ slots := fun {e} =>
    (stdSort.perm (StrictWeak.of_uint64_lt.comap SlotEntry.offsetNs) slots).mem_iff
  obtain ⟨hdom, hkeep⟩ := getElem?_publish hold (hslots.sort stdSort)
  simp only [hmem] at hdom hkeep
  refine ⟨hdom, hnew.inj, hkeep, fun e he => ?_⟩
  obtain ⟨i, hi⟩ := (hdom e.taskIdHash).2 ⟨e, he, rfl⟩
  have hi : p'.taskHashToShmIdx[e.taskIdHash]? = some i := hi
  refine ⟨i, ?_, ?_⟩
  · rw [hslots.name_eq e he]
    exact hnew.findTaskSlot hi
  · rw [wakeTask, hi]
    rfl

/-- A slot on CPU 2 of a task with the given hash and name. -/
def slotOf (hash : UInt64) (name : Text) : SlotEntry := ⟨2, 0, 0, 10, hash, 1, name⟩

/-- A new shared memory object. -/
def blankShm : Shm := ⟨0, 0, 0, fun _ => ⟨fun _ => 0, 0⟩⟩

/-- A third task takes over the slot of one that is gone. -/
theorem slots_agree_third :
    let name : UInt64 → Text := fun h => text (if h = 1 then "x" else if h = 2 then "y" else "z")
    let tables := [[slotOf 1 (name 1), slotOf 2 (name 2)], [slotOf 2 (name 2)]]
    let slots := [slotOf 2 (name 2), slotOf 3 (name 3)]
    let p' := (afterTables insertionStdSort blankShm tables).setScheduleTable insertionStdSort slots
    ∃ i : Fin maxTasks, findTaskSlot p'.shm (strncpy 15 (name 3)) = some i ∧
      (p'.wakeTask 3).shm = p'.shm.modifyTask i fun t => { t with counter := t.counter + 1 } := by
  intro name tables slots
  exact (slots_agree insertionStdSort blankShm name tables slots (by decide) (by decide)
    (by decide)).2.2.2 (slotOf 3 (name 3)) (by decide)

/-- **Names that differ behind a NUL byte only** are one name for C code: the client of the second
task finds the slot of the first one. -/
theorem not_slots_agree_nul :
    let slots := [slotOf 1 [97, 0, 98], slotOf 2 [97, 0, 99]]
    let p := (new blankShm).setScheduleTable insertionStdSort slots
    slots.Pairwise (fun e e' => e.taskName.take 15 ≠ e'.taskName.take 15) ∧
      p.taskHashToShmIdx[(2 : UInt64)]? = some 1 ∧
      findTaskSlot p.shm (strncpy 15 [97, 0, 99]) = some 0 := by
  decide +kernel

end Publisher

end Ttsched

end Timpani
