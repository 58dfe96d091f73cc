import Timpani.Node.Exact
import Timpani.Store.Removal

/-!
# Names and hashes of workloads

A workload can be removed from the store, and stopped on a node, by its name or by the hash of its
name, in decimal or behind `0x`.  Both lookups read the hexadecimal form with `std::stoull`, which
throws where the value does not fit and ignores whatever follows the digits.

* `Spells` : the texts that are meant to denote a hash;
* `findByHash_eq`, `resolveHash_eq` : the two lookups are the same search;
* `found_iff_resolvable` : when this search is total and exact;
* `denotes_iff_resolvable` : the same for the store and the node.
-/

namespace Timpani

open GlobalScheduler (fnv1aHash unconfigured)
open SchedInfoService (findByHash namesHash removeWorkload)

/-! ### Hexadecimal numbers -/

/-- There are digits behind the marker, and nothing else. -/
def OnlyHex (s : Text) : Prop := hexRun s ≠ [] ∧ hexRun s = s.drop 2

instance : DecidablePred OnlyHex := fun _ => inferInstanceAs (Decidable (_ ∧ _))

/-- The text is the decimal spelling of a number, or `0x` and its hexadecimal spelling. -/
def Spells (s : Text) (h : UInt64) : Prop :=
  s = natText h.toNat ∨
    ∃ digits, s = text "0x" ++ digits ∧ digits ≠ [] ∧
      (∀ b ∈ digits, (hexDigit b).isSome = true) ∧ hexValue digits = h.toNat

variable {s w : Text} {h : UInt64} {entries : List (UInt64 × Text)} {stored : Text → Prop}

theorem exists_stoull16_eq (hs : HexFits s) (hne : h.toNat ≠ hexValue (hexRun s)) :
    ∃ value, stoull16 s = .ok value ∧ value ≠ h := by
  refine ⟨_, if_pos hs, fun heq => hne ((stoull16_eq_ok_iff hs).1 ?_)⟩
  rw [← heq]
  exact if_pos hs

theorem natText_ne_of_hex (hs : text "0x" <+: s) (n : ℕ) : natText n ≠ s := by
  rintro rfl
  obtain ⟨rest, hrest⟩ := hs
  have hx : (120 : UInt8) ∈ natText n := hrest ▸ List.mem_append_left _ (by decide)
  exact absurd (isDigit_of_mem_natText hx) (by decide)

theorem spells_of_onlyHex (hs : text "0x" <+: s) (honly : OnlyHex s)
    (hvalue : h.toNat = hexValue (hexRun s)) : Spells s h := by
  have hdigits : ∀ b ∈ hexRun s, (hexDigit b).isSome = true := by
    intro b hb
    exact List.mem_takeWhile_imp (p := fun b => (hexDigit b).isSome) hb
  refine Or.inr ⟨hexRun s, ?_, honly.1, hdigits, hvalue.symm⟩
  rw [honly.2]
  exact (List.prefix_iff_eq_append.1 hs).symm

theorem onlyHex_of_spells (hs : text "0x" <+: s) (hspells : Spells s h) : OnlyHex s := by
  rcases hspells with hdecimal | ⟨digits, rfl, hne, hdigits, -⟩
  · exact absurd hdecimal.symm (natText_ne_of_hex hs _)
  · have hrun : hexRun (text "0x" ++ digits) = digits := List.takeWhile_eq_self_iff.2 hdigits
    exact ⟨hrun.symm ▸ hne, hrun⟩

/-! ### The search -/

/-- The workload whose hash a text is read as, if there is one; `none` for an exception. -/
def search (s : Text) (entries : List (UInt64 × Text)) : Option (Option Text) :=
  if text "0x" <+: s then
    if entries = [] then some none
    else if HexFits s then
      some ((entries.find? fun e => e.1.toNat = hexValue (hexRun s)).map Prod.snd)
    else none
  else some ((entries.find? fun e => natText e.1.toNat = s).map Prod.snd)

theorem search_nil : search s [] = some none := by
  simp [search]

theorem search_cons {e : UInt64 × Text} : search s (e :: entries) =
    if natText e.1.toNat = s then some (some e.2)
    else if text "0x" <+: s then
      if HexFits s then
        if e.1.toNat = hexValue (hexRun s) then some (some e.2) else search s entries
      else none
    else search s entries := by
  by_cases hs : text "0x" <+: s
  · rw [if_neg (natText_ne_of_hex hs _), if_pos hs]
    by_cases hlt : HexFits s
    · by_cases heq : e.1.toNat = hexValue (hexRun s)
      · simp [search, hs, hlt, heq]
      · cases entries <;> simp [search, hs, hlt, heq]
    · simp [search, hs, hlt]
  · by_cases heq : natText e.1.toNat = s <;> simp [search, hs, heq]

/-- The lookup in the store. -/
theorem findByHash_eq (names : List Text) : (findByHash s names).toOption =
    search s (names.map fun name => (fnv1aHash name, name)) := by
  induction names with
  | nil => exact search_nil.symm
  | cons name names ih =>
    rw [List.map_cons, search_cons, ← ih, findByHash, namesHash]
    dsimp only
    have hstart : s.take 2 = text "0x" ↔ text "0x" <+: s := by
      rw [List.prefix_iff_eq_take, eq_comm]
      rfl
    simp only [hstart]
    split_ifs with hdecimal hs hlt heq
    · rfl
    · simp [(stoull16_eq_ok_iff hlt).2 heq, Except.map, Except.toOption]
    · obtain ⟨value, hread, hne⟩ := exists_stoull16_eq hlt heq
      simp [hread, hne, Except.map]
    · simp [stoull16, hlt, Except.map, Except.toOption]
    · rfl

/-- The lookup on a node. -/
theorem resolveHash_eq :
    resolveHash s entries = (search s entries).map fun found => found.getD s := by
  induction entries with
  | nil =>
    rw [search_nil]
    rfl
  | cons e entries ih =>
    obtain ⟨hash, name⟩ := e
    rw [search_cons, resolveHash]
    dsimp only
    split_ifs with hdecimal hs hlt heq
    · rfl
    · simp [(stoull16_eq_ok_iff hlt).2 heq]
    · obtain ⟨value, hread, hne⟩ := exists_stoull16_eq hlt heq
      simp [hread, hne, ih]
    · simp [stoull16, hlt]
    · exact ih

/-! ### When it is exact -/

/-- The text is the name of a stored workload, or no hexadecimal number is meant; or there is
nothing to find; or the number fits, and nothing stands behind it unless nothing is found. -/
def Resolvable (stored : Text → Prop) (entries : List (UInt64 × Text)) (s : Text) : Prop :=
  stored s ∨ ¬ text "0x" <+: s ∨ entries = [] ∨
    (HexFits s ∧
      (OnlyHex s ∨ ∀ e ∈ entries, stored e.2 → e.1.toNat ≠ hexValue (hexRun s)))

/-- **The search is total and exact** for these texts only, where every workload is entered under
the hash of its name. -/
theorem found_iff_resolvable (hs : ¬ stored s) (hhash : ∀ e ∈ entries, e.1 = fnv1aHash e.2)
    (hsame : ∀ e ∈ entries, ∀ e' ∈ entries, e.1 = e'.1 → stored e.2 → stored e'.2) :
    (∃ found, search s entries = some found ∧
        ∀ w, found = some w → stored w → Spells s (fnv1aHash w)) ↔
      Resolvable stored entries s := by
  by_cases hstart : text "0x" <+: s
  swap
  · refine iff_of_true ⟨_, if_neg hstart, fun w hw _ => Or.inl ?_⟩ (Or.inr (Or.inl hstart))
    obtain ⟨e, he, rfl⟩ := Option.map_eq_some_iff.1 hw
    rw [← hhash e (List.mem_of_find?_eq_some he)]
    simpa [eq_comm] using List.find?_some he
  by_cases hnil : entries = []
  · subst hnil
    exact iff_of_true ⟨none, search_nil, fun w hw => by cases hw⟩ (Or.inr (Or.inr (Or.inl rfl)))
  by_cases hlt : HexFits s
  swap
  · refine iff_of_false ?_ ?_
    · rintro ⟨found, hfound, -⟩
      simp [search, hstart, hnil, hlt] at hfound
    · simp [Resolvable, hs, hstart, hnil, hlt]
  have hsearch : search s entries =
      some ((entries.find? fun e => e.1.toNat = hexValue (hexRun s)).map Prod.snd) := by
    simp [search, hstart, hnil, hlt]
  have hresolvable : Resolvable stored entries s ↔
      OnlyHex s ∨ ∀ e ∈ entries, stored e.2 → e.1.toNat ≠ hexValue (hexRun s) := by
    simp [Resolvable, hs, hstart, hnil, hlt]
  rw [hsearch, hresolvable]
  simp only [Option.some.injEq, exists_eq_left']
  constructor
  · intro hfound
    by_contra hnot
    obtain ⟨honly, hall⟩ := not_or.1 hnot
    refine hall fun e he hstored hvalue => ?_
    -- some entry is found, and it is of a stored workload as well
    have hsome : (entries.find? fun e => e.1.toNat = hexValue (hexRun s)).isSome = true :=
      List.find?_isSome.2 ⟨e, he, by simpa using hvalue⟩
    obtain ⟨e', he'⟩ := Option.isSome_iff_exists.1 hsome
    have hvalue' : e'.1.toNat = hexValue (hexRun s) := by simpa using List.find?_some he'
    have hstored' := hsame e he e' (List.mem_of_find?_eq_some he')
      (UInt64.toNat_inj.1 (hvalue.trans hvalue'.symm)) hstored
    exact honly (onlyHex_of_spells hstart (hfound e'.2 (by rw [he']; rfl) hstored'))
  · rintro hcond w hw hstored
    obtain ⟨e, he, rfl⟩ := Option.map_eq_some_iff.1 hw
    have hmem := List.mem_of_find?_eq_some he
    have hvalue : e.1.toNat = hexValue (hexRun s) := by simpa using List.find?_some he
    rcases hcond with honly | hall
    · exact spells_of_onlyHex hstart honly (hhash e hmem ▸ hvalue)
    · exact absurd hvalue (hall e hmem hstored)

/-! ### The store and the nodes -/

/-- The text may be used for the workload: it is its name, or no stored workload has this name and
the text spells its hash. -/
def Denotes (stored : Text → Prop) (s w : Text) : Prop :=
  s = w ∨ ¬ stored s ∧ Spells s (fnv1aHash w)

theorem forall_gone_iff {α : Type} {m : Std.ExtTreeMap Text α} {wid : Text} {P : Text → Prop} :
    (∀ w ∈ m, w ∉ m.erase wid → P w) ↔ (wid ∈ m → P wid) := by
  constructor
  · exact fun h hwid => h wid hwid (by simp)
  · intro h w hw hgone
    by_cases heq : wid = w
    · subst heq
      exact h hw
    · refine absurd (Std.ExtTreeMap.mem_erase.2 ⟨?_, hw⟩) hgone
      rwa [ne_eq, Std.LawfulEqOrd.compare_eq_iff_eq]

namespace SchedInfoService

variable {U : Type} [Floating U]

/-- The stored workloads and their hashes. -/
def hashes (o : SchedInfoService) : List (UInt64 × Text) :=
  o.workloadTasks.keys.map fun name => (fnv1aHash name, name)

theorem removeWorkload_denotes_iff (G : GlobalScheduler U) (clock : ℕ → UInt64)
    (o : SchedInfoService) (s : Text) (triggerPush : Bool) :
    (∃ r, removeWorkload G clock o s triggerPush = .ok r ∧ ∀ w ∈ o.workloadTasks,
        w ∉ r.service.workloadTasks → Denotes (· ∈ o.workloadTasks) s w) ↔
      Resolvable (· ∈ o.workloadTasks) o.hashes s := by
  -- what is removed is what the name resolves to
  have hresolve : (∃ r, removeWorkload G clock o s triggerPush = .ok r ∧ ∀ w ∈ o.workloadTasks,
        w ∉ r.service.workloadTasks → Denotes (· ∈ o.workloadTasks) s w) ↔
      ∃ found, resolve o.workloadTasks s = .ok found ∧ ∀ w, found = some w →
        w ∈ o.workloadTasks → Denotes (· ∈ o.workloadTasks) s w := by
    cases hremove : removeWorkload G clock o s triggerPush with
    | error e => simp [resolve_of_removeWorkload_error hremove]
    | ok r =>
      rcases removeWorkload_cases hremove with ⟨hnone, rfl⟩ | ⟨actualId, hres, -, ⟨hw, -⟩, -⟩
      · rw [hnone]
        exact iff_of_true ⟨_, rfl, fun w hw hnot => absurd hw hnot⟩
          ⟨_, rfl, fun w hw => by cases hw⟩
      · simp only [hres, hw, Except.ok.injEq, exists_eq_left', Option.some.injEq, forall_eq',
          forall_gone_iff]
  rw [hresolve]
  by_cases hs : s ∈ o.workloadTasks
  · refine iff_of_true ⟨some s, if_pos hs, ?_⟩ (Or.inl hs)
    rintro w hw -
    exact Or.inl (Option.some.inj hw)
  · rw [← found_iff_resolvable hs]
    · rw [resolve, if_neg hs, hashes, ← findByHash_eq]
      simp only [toOption_eq_some]
      refine exists_congr fun found => and_congr_right fun _ => forall_congr' fun w => ?_
      refine forall_congr' fun _ => forall_congr' fun hw => or_iff_right ?_ |>.trans ?_
      · rintro rfl
        exact hs hw
      · exact and_iff_right hs
    · intro e he
      obtain ⟨name, -, rfl⟩ := List.mem_map.1 he
      rfl
    · intro _ _ e' he' _ _
      obtain ⟨name, hname, rfl⟩ := List.mem_map.1 he'
      exact Std.ExtTreeMap.mem_keys.1 hname

end SchedInfoService

/-- The workloads a node has heard of are entered under the hashes of their names. -/
def Node.Hashed (n : Node) : Prop :=
  ∀ (h : UInt64) (w : Text), n.workloadHashToId[h]? = some w → h = fnv1aHash w

namespace Daemon

variable {d d' : Daemon}

theorem recoveryCallback_denotes_iff (hd : d.node.Hashed) (s : Text) :
    (∃ d', d.recoveryCallback s = some d' ∧ ∀ w ∈ d.node.workloadToPids,
        w ∉ d'.node.workloadToPids → Denotes (· ∈ d.node.workloadToPids) s w) ↔
      Resolvable (· ∈ d.node.workloadToPids) d.node.workloadHashToId.toList s := by
  have hresolve : (∃ d', d.recoveryCallback s = some d' ∧ ∀ w ∈ d.node.workloadToPids,
        w ∉ d'.node.workloadToPids → Denotes (· ∈ d.node.workloadToPids) s w) ↔
      ∃ wid, d.node.resolve s = some wid ∧
        (wid ∈ d.node.workloadToPids → Denotes (· ∈ d.node.workloadToPids) s wid) := by
    unfold recoveryCallback
    cases d.node.resolve s with
    | none => simp
    | some wid =>
      have hgone := @forall_gone_iff _ d.node.workloadToPids wid
        (Denotes (· ∈ d.node.workloadToPids) s)
      simpa [Node.stopWorkload] using hgone
  rw [hresolve]
  by_cases hs : s ∈ d.node.workloadToPids
  · exact iff_of_true ⟨s, if_pos hs, fun _ => Or.inl rfl⟩ (Or.inl hs)
  · rw [← found_iff_resolvable hs]
    · rw [Node.resolve, if_neg hs, resolveHash_eq]
      simp only [Option.map_eq_some_iff]
      constructor
      · rintro ⟨_, ⟨found, hfound, rfl⟩, hdenotes⟩
        refine ⟨found, hfound, ?_⟩
        rintro w rfl hw
        exact ((hdenotes hw).resolve_left fun h => hs (h ▸ hw)).2
      · rintro ⟨found, hfound, hspells⟩
        refine ⟨_, ⟨found, hfound, rfl⟩, fun hw => ?_⟩
        cases found with
        | none => exact Or.inl rfl
        | some w => exact Or.inr ⟨hs, hspells w rfl hw⟩
    · intro e he
      exact hd e.1 e.2 (Std.ExtTreeMap.mem_toList_iff_getElem?_eq_some.1 he)
    · intro e he e' he' heq hstored
      have hget := Std.ExtTreeMap.mem_toList_iff_getElem?_eq_some.1 he
      have hget' := Std.ExtTreeMap.mem_toList_iff_getElem?_eq_some.1 he'
      rw [heq] at hget
      exact Option.some.inj (hget.symm.trans hget') ▸ hstored

end Daemon

/-! ### The entries of a node -/

/-- The table carries the hashes of the names, as those of the scheduler do. -/
def HierarchicalScheduleTable.Hashed (t : HierarchicalScheduleTable) : Prop :=
  ∀ w ∈ t.items.filterMap Item.workload?, w.2 = fnv1aHash w.1

instance {t : HierarchicalScheduleTable} : Decidable t.Hashed :=
  inferInstanceAs (Decidable (∀ w ∈ _, _))

theorem hashed_applyItem {a : Applying} {pid : Option UInt32} {now : UInt64} {item : Item}
    (ha : a.node.Hashed) (hitem : ∀ w ∈ item.workload?, w.2 = fnv1aHash w.1) :
    (a.applyItem pid now item).node.Hashed := by
  have hinsert : ∀ (w : Text) (h : UInt64), item.workload? = some (w, h) →
      ∀ (h' : UInt64) (w' : Text), (a.node.workloadHashToId.insert h w)[h']? = some w' →
        h' = fnv1aHash w' := by
    intro w h hw h' w' hget
    simp only [Std.ExtTreeMap.getElem?_insert, Std.LawfulEqOrd.compare_eq_iff_eq] at hget
    split_ifs at hget with heq
    · cases hget
      exact heq ▸ hitem (w, h) hw
    · exact ha h' w' hget
  cases item with
  | tt slot layer =>
    cases pid with
    | none =>
      have hsame : (a.applyTt none slot layer).node.workloadHashToId = a.node.workloadHashToId := by
        simp only [Applying.applyTt, Applying.trackTt, Applying.node_writeTtSlot]
        rfl
      exact fun h w hget => ha h w (hsame ▸ hget)
    | some pid =>
      intro h w hget
      rw [Applying.applyItem, Applying.node_applyTt] at hget
      exact hinsert _ _ rfl h w hget
  | cbs e layer cpu =>
    cases pid with
    | none => exact ha
    | some pid =>
      intro h w hget
      have hnode := Applying.node_applyCbs a pid now e layer cpu
      dsimp only at hnode
      rw [Applying.applyItem, hnode] at hget
      split_ifs at hget
      · exact hinsert _ _ rfl h w hget
      · exact ha h w hget
      · exact ha h w hget
  | noCpu partitionId => exact ha

/-- **The entries are the hashes of the names** after every table of the scheduler. -/
theorem hashed_tableCallback {t : HierarchicalScheduleTable} (ht : t.Hashed) (n : Node)
    (findPid : ℕ → Option UInt32) (clock : ℕ → UInt64) :
    (n.tableCallback findPid clock t).1.Hashed := by
  have hempty : (n.evict t).Hashed := by simp [Node.Hashed, Node.evict]
  refine List.foldlRecOn (motive := fun a : Applying => a.node.Hashed) t.items.zipIdx _ hempty ?_
  intro a ha x hx
  refine hashed_applyItem ha fun w hw => ht w ?_
  exact List.mem_filterMap.2 ⟨x.1, List.fst_mem_of_mem_zipIdx hx, hw⟩

/-! ### Totality and exactness -/

section Exactness

variable {U : Type} [Floating U]

/-- **Names and hashes of workloads**: removing a workload from the store and stopping one on a node
complete, and concern only a workload that the text denotes, iff the text is resolvable for both. -/
theorem denotes_iff_resolvable (G : GlobalScheduler U) (clock : ℕ → UInt64) (o : SchedInfoService)
    (triggerPush : Bool) (d : Daemon) (hd : d.node.Hashed) (s : Text) :
    ((∃ r, removeWorkload G clock o s triggerPush = .ok r ∧ ∀ w ∈ o.workloadTasks,
        w ∉ r.service.workloadTasks → Denotes (· ∈ o.workloadTasks) s w) ∧
      ∃ d', d.recoveryCallback s = some d' ∧ ∀ w ∈ d.node.workloadToPids,
        w ∉ d'.node.workloadToPids → Denotes (· ∈ d.node.workloadToPids) s w) ↔
      Resolvable (· ∈ o.workloadTasks) o.hashes s ∧
        Resolvable (· ∈ d.node.workloadToPids) d.node.workloadHashToId.toList s :=
  and_congr (SchedInfoService.removeWorkload_denotes_iff G clock o s triggerPush)
    (Daemon.recoveryCallback_denotes_iff hd s)

end Exactness

/-- A store with the workload `a`. -/
def storeOfA : SchedInfoService :=
  SchedInfoService.submitted unconfigured [SchedInfoService.periodicWorkload "a" [("t", 10, 3, 10)]]

/-- A node with the workload `a`. -/
def daemonOfA : Daemon :=
  Daemon.started.tableCallback insertionStdSort (Daemon.finding [some 7]) (fun _ => 0)
    (Daemon.tableOf [Daemon.sampleSlot "a" "t"] [])

theorem hashed_daemonOfA : daemonOfA.node.Hashed :=
  hashed_tableCallback (by decide +kernel) _ _ _

/-- The hexadecimal form of the hash. -/
theorem denotes_hash_of_a :
    (∃ r, removeWorkload unconfigured (fun _ => 0) storeOfA (text "0xaf63dc4c8601ec8c") false =
          .ok r ∧
        ∀ w ∈ storeOfA.workloadTasks, w ∉ r.service.workloadTasks →
          Denotes (· ∈ storeOfA.workloadTasks) (text "0xaf63dc4c8601ec8c") w) ∧
      ∃ d', daemonOfA.recoveryCallback (text "0xaf63dc4c8601ec8c") = some d' ∧
        ∀ w ∈ daemonOfA.node.workloadToPids, w ∉ d'.node.workloadToPids →
          Denotes (· ∈ daemonOfA.node.workloadToPids) (text "0xaf63dc4c8601ec8c") w :=
  have hfits : HexFits (text "0xaf63dc4c8601ec8c") ∧ OnlyHex (text "0xaf63dc4c8601ec8c") := by
    decide +kernel
  (denotes_iff_resolvable unconfigured (fun _ => 0) storeOfA false daemonOfA hashed_daemonOfA
    (text "0xaf63dc4c8601ec8c")).2
    ⟨Or.inr (Or.inr (Or.inr ⟨hfits.1, Or.inl hfits.2⟩)),
      Or.inr (Or.inr (Or.inr ⟨hfits.1, Or.inl hfits.2⟩))⟩

/-- A number of 65 bits makes both throw, and both act on `a` whatever stands behind its hash. -/
theorem resolution_fails :
    text "a" ∈ storeOfA.workloadTasks ∧ text "a" ∈ daemonOfA.node.workloadToPids ∧
    (removeWorkload unconfigured (fun _ => 0) storeOfA (text "0x10000000000000000") false =
        .error .outOfRange ∧
      daemonOfA.recoveryCallback (text "0x10000000000000000") = none) ∧
    (∃ r, removeWorkload unconfigured (fun _ => 0) storeOfA (text "0xaf63dc4c8601ec8c-old") false =
        .ok r ∧ text "a" ∉ r.service.workloadTasks) ∧
    (∃ d', daemonOfA.recoveryCallback (text "0xaf63dc4c8601ec8c-old") = some d' ∧
      text "a" ∉ d'.node.workloadToPids) ∧
    ∀ stored : Text → Prop, ¬ Denotes stored (text "0xaf63dc4c8601ec8c-old") (text "a") := by
  have hremove : (removeWorkload unconfigured (fun _ => 0) storeOfA
      (text "0xaf63dc4c8601ec8c-old") false).toOption.any
        (fun r => decide (text "a" ∉ r.service.workloadTasks)) = true := by decide +kernel
  have hstop : (daemonOfA.recoveryCallback (text "0xaf63dc4c8601ec8c-old")).any
      (fun d' => decide (text "a" ∉ d'.node.workloadToPids)) = true := by decide +kernel
  obtain ⟨r, hr, hgone⟩ := (Option.any_eq_true _ _).1 hremove
  obtain ⟨d', hd', hgone'⟩ := (Option.any_eq_true _ _).1 hstop
  refine ⟨by decide +kernel, by decide +kernel, ⟨?_, ?_⟩,
    ⟨r, toOption_eq_some.1 hr, of_decide_eq_true hgone⟩, ⟨d', hd', of_decide_eq_true hgone'⟩, ?_⟩
  · have hthrow : SchedInfoService.resolve storeOfA.workloadTasks (text "0x10000000000000000") =
        .error .outOfRange := by decide +kernel
    rw [removeWorkload, hthrow]
    rfl
  · refine Option.isSome_eq_false_iff.1 ?_ |> Option.isNone_iff_eq_none.1
    decide +kernel
  · rintro stored (heq | ⟨-, hspells⟩)
    · exact absurd heq (by decide)
    · exact absurd (onlyHex_of_spells (by decide) hspells) (by decide)

end Timpani
