import Mathlib

/-!
# BPF maps

Hash maps and arrays as BPF programs and their loaders see them.  A hash map has a fixed number of
entries, which is part of its type: an update with a new key fails when the map is full.  A program
that has looked a value up writes to it in place (`modify`).  An array has all its entries from the
start, and a lookup behind its end gives nothing.

* `BpfHash.lookup_update`, `BpfHash.lookup_delete`, `BpfHash.lookup_modify` : reading after writing;
* `BpfHash.lookup_foldl_delete` : reading after a loop of deletions;
* `BpfArray.lookup_store` : the same for arrays;
* `BpfHash.Extends` : what a loop of writes does to a map;
* `BpfHash.card_le` : a set of keys of a map is no larger than the map can be;
* `BpfHash.update_eq_true_of_mem` : keys from a set that is no larger than the map can always be written.
-/

namespace Timpani

/-- A hash map with at most `cap` entries. -/
@[ext]
structure BpfHash (cap : ℕ) (κ ν : Type) [Ord κ] [Std.TransOrd κ] where
  entries : Std.ExtTreeMap κ ν
  size_le : entries.size ≤ cap

namespace BpfHash

variable {cap : ℕ} {κ ν : Type} [Ord κ] [Std.TransOrd κ]

/-- The map at load time. -/
def empty : BpfHash cap κ ν := ⟨∅, by simp⟩

/-- `bpf_map_lookup_elem` -/
def lookup (m : BpfHash cap κ ν) (k : κ) : Option ν := m.entries[k]?

/-- `bpf_map_update_elem` with `BPF_ANY`; the flag says whether it succeeded. -/
def update (m : BpfHash cap κ ν) (k : κ) (v : ν) : BpfHash cap κ ν × Bool :=
  if h : k ∈ m.entries ∨ m.entries.size < cap then
    (⟨m.entries.insert k v, by
      rw [Std.ExtTreeMap.size_insert]
      have := m.size_le
      split_ifs with hk
      · exact this
      · exact h.resolve_left fun hmem => hk (Std.ExtTreeMap.mem_iff_contains.1 hmem)⟩, true)
  else (m, false)

/-- `bpf_map_delete_elem` -/
def delete (m : BpfHash cap κ ν) (k : κ) : BpfHash cap κ ν × Bool :=
  (⟨m.entries.erase k, Std.ExtTreeMap.size_erase_le.trans m.size_le⟩, k ∈ m.entries)

/-- Write through a pointer that a lookup returned. -/
def modify (m : BpfHash cap κ ν) (k : κ) (f : ν → ν) : BpfHash cap κ ν :=
  ⟨m.entries.modify k f, Std.ExtTreeMap.size_modify.trans_le m.size_le⟩

variable {m : BpfHash cap κ ν} {k k' : κ} {v : ν} {f : ν → ν}

@[simp] theorem lookup_empty : (empty : BpfHash cap κ ν).lookup k = none := by
  simp [lookup, empty]

theorem mem_entries_iff : k ∈ m.entries ↔ (m.lookup k).isSome :=
  Std.ExtTreeMap.mem_iff_isSome_getElem?

theorem update_eq_true (h : (m.lookup k).isSome) : (m.update k v).2 = true := by
  unfold update
  rw [dif_pos (Or.inl (mem_entries_iff.2 h))]

variable [Std.LawfulEqOrd κ] [DecidableEq κ]

theorem lookup_modify :
    (m.modify k f).lookup k' = if k = k' then (m.lookup k).map f else m.lookup k' := by
  simp only [lookup, modify, Std.ExtTreeMap.getElem?_modify, Std.LawfulEqOrd.compare_eq_iff_eq]

theorem lookup_delete : (m.delete k).1.lookup k' = if k = k' then none else m.lookup k' := by
  simp only [lookup, delete, Std.ExtTreeMap.getElem?_erase, Std.LawfulEqOrd.compare_eq_iff_eq]

/-- An update writes the entry or, when the map is full, nothing. -/
theorem lookup_update : (m.update k v).1.lookup k' =
    if k = k' ∧ (m.update k v).2 = true then some v else m.lookup k' := by
  unfold update
  split_ifs with h hk hk
  · simp only [lookup, Std.ExtTreeMap.getElem?_insert, Std.LawfulEqOrd.compare_eq_iff_eq, hk.1,
      if_true]
  · have hne : k ≠ k' := fun heq => hk ⟨heq, rfl⟩
    simp only [lookup, Std.ExtTreeMap.getElem?_insert, Std.LawfulEqOrd.compare_eq_iff_eq, hne,
      if_false]
  · cases hk.2
  · rfl

theorem lookup_foldl_delete (ks : List κ) :
    (ks.foldl (fun m k => (m.delete k).1) m).lookup k' = if k' ∈ ks then none else m.lookup k' := by
  induction ks generalizing m with
  | nil => rfl
  | cons k ks ih =>
    rw [List.foldl_cons, ih, lookup_delete]
    by_cases hmem : k' ∈ ks
    · rw [if_pos hmem, if_pos (List.mem_cons_of_mem _ hmem)]
    · rw [if_neg hmem]
      by_cases heq : k = k'
      · rw [if_pos heq, if_pos (heq ▸ List.mem_cons_self)]
      · rw [if_neg heq, if_neg fun h => (List.mem_cons.1 h).elim (fun h => heq h.symm) hmem]

omit [DecidableEq κ] in
theorem size_eq_length {ks : List κ} (hnodup : ks.Nodup) (h : ∀ k, (m.lookup k).isSome ↔ k ∈ ks) :
    m.entries.size = ks.length := by
  have hperm : m.entries.keys.Perm ks := by
    rw [List.perm_ext_iff_of_nodup Std.ExtTreeMap.nodup_keys hnodup]
    intro k
    rw [Std.ExtTreeMap.mem_keys, mem_entries_iff, h]
  rw [← Std.ExtTreeMap.length_keys, hperm.length_eq]

omit [Std.LawfulEqOrd κ] [DecidableEq κ] in
theorem size_update_le : (m.update k v).1.entries.size ≤ m.entries.size + 1 := by
  unfold update
  split_ifs
  · exact Std.ExtTreeMap.size_insert_le
  · exact Nat.le_succ _

omit [Std.LawfulEqOrd κ] [DecidableEq κ] in
theorem update_eq_true_of_size_lt (h : m.entries.size < cap) : (m.update k v).2 = true := by
  unfold update
  rw [dif_pos (Or.inr h)]

/-- `m'` is `m` after the entries `W` were written in some order; where `W` has several values for a
key, one of them was written last. -/
structure Extends (W : κ → ν → Prop) (m m' : BpfHash cap κ ν) : Prop where
  of_lookup : ∀ k v, m'.lookup k = some v → m.lookup k = some v ∨ W k v
  isSome : ∀ k, (m.lookup k).isSome ∨ (∃ v, W k v) → (m'.lookup k).isSome

section Extends

variable {W W' W'' : κ → ν → Prop} {m' m'' : BpfHash cap κ ν}

omit [Std.LawfulEqOrd κ] [DecidableEq κ] in
theorem Extends.refl (h : ∀ k v, ¬ W k v) (m : BpfHash cap κ ν) : Extends W m m :=
  ⟨fun _ _ => Or.inl, fun k hk => hk.resolve_right fun ⟨v, hv⟩ => h k v hv⟩

omit [Std.LawfulEqOrd κ] [DecidableEq κ] in
theorem Extends.trans (h : Extends W m m') (h' : Extends W' m' m'')
    (hW : ∀ k v, W'' k v ↔ W k v ∨ W' k v) : Extends W'' m m'' where
  of_lookup k v hv := by
    rcases h'.of_lookup k v hv with hv | hv
    · exact (h.of_lookup k v hv).imp_right fun hv => (hW k v).2 (Or.inl hv)
    · exact Or.inr ((hW k v).2 (Or.inr hv))
  isSome k hk := by
    refine h'.isSome k ?_
    rcases hk with hk | ⟨v, hv⟩
    · exact Or.inl (h.isSome k (Or.inl hk))
    · rcases (hW k v).1 hv with hv | hv
      · exact Or.inl (h.isSome k (Or.inr ⟨v, hv⟩))
      · exact Or.inr ⟨v, hv⟩

theorem Extends.update (h : (m.update k v).2 = true) (hW : ∀ k' v', W k' v' ↔ k = k' ∧ v = v') :
    Extends W m (m.update k v).1 where
  of_lookup k' v' hv := by
    rw [lookup_update] at hv
    split_ifs at hv with hnew
    · cases hv
      exact Or.inr ((hW _ _).2 ⟨hnew.1, rfl⟩)
    · exact Or.inl hv
  isSome k' hk := by
    rw [lookup_update]
    split_ifs with hnew
    · rfl
    · refine hk.resolve_right ?_
      rintro ⟨v', hv⟩
      exact hnew ⟨((hW _ _).1 hv).1, h⟩

end Extends

/-- A set of keys of a map is no larger than the map can be. -/
theorem card_le {s : Finset κ} (h : ∀ k ∈ s, (m.lookup k).isSome) : s.card ≤ cap := by
  have hsub : s ⊆ m.entries.keys.toFinset := by
    intro k hk
    rw [List.mem_toFinset, Std.ExtTreeMap.mem_keys]
    exact mem_entries_iff.2 (h k hk)
  calc s.card ≤ m.entries.keys.toFinset.card := Finset.card_le_card hsub
    _ ≤ m.entries.keys.length := List.toFinset_card_le _
    _ = m.entries.size := Std.ExtTreeMap.length_keys
    _ ≤ cap := m.size_le

/-- Keys from a set that is no larger than the map can always be written. -/
theorem update_eq_true_of_mem {s : Finset κ} (hs : ∀ k, (m.lookup k).isSome → k ∈ s)
    (hcard : s.card ≤ cap) (hk : k ∈ s) : (m.update k v).2 = true := by
  by_cases hmem : (m.lookup k).isSome
  · exact update_eq_true hmem
  · refine update_eq_true_of_size_lt ?_
    have hsub : m.entries.keys.toFinset ⊆ s.erase k := by
      intro k' hk'
      rw [List.mem_toFinset, Std.ExtTreeMap.mem_keys, mem_entries_iff] at hk'
      refine Finset.mem_erase.2 ⟨?_, hs k' hk'⟩
      rintro rfl
      exact hmem hk'
    calc m.entries.size = m.entries.keys.length := Std.ExtTreeMap.length_keys.symm
      _ = m.entries.keys.toFinset.card := (List.toFinset_card_of_nodup Std.ExtTreeMap.nodup_keys).symm
      _ ≤ (s.erase k).card := Finset.card_le_card hsub
      _ < s.card := Finset.card_erase_lt_of_mem hk
      _ ≤ cap := hcard

end BpfHash

/-- An array of `n` entries, indexed by 32-bit numbers. -/
abbrev BpfArray (n : ℕ) (ν : Type) := Vector ν n

namespace BpfArray

variable {n : ℕ} {ν : Type}

/-- `bpf_map_lookup_elem` -/
def lookup (a : BpfArray n ν) (k : UInt32) : Option ν := a[k.toNat]?

/-- `bpf_map_update_elem`, or a write through a pointer that a lookup returned. -/
def store (a : BpfArray n ν) (k : UInt32) (v : ν) : BpfArray n ν := a.setIfInBounds k.toNat v

variable {a : BpfArray n ν} {k k' : UInt32} {v : ν}

theorem lookup_store : (a.store k v).lookup k' =
    if k = k' then if k.toNat < n then some v else none else a.lookup k' := by
  simp only [lookup, store, Vector.getElem?_setIfInBounds, UInt32.toNat_inj]

end BpfArray

end Timpani
