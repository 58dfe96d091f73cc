import Mathlib.Data.List.Chain
import Mathlib.Logic.ExistsUnique
import Mathlib.Logic.Relation

/-!
# Machines and their runs

The parts of the system that keep state (the store of the orchestrator, its replay loop, the sync
barrier, the maps of the BPF scheduler) are *machines*: a set of initial states and a partial
function that says what an action does in a state where it is enabled.  Everything a run does not
determine by itself — the order of the actions, the requests, the clock readings — is data of the
actions, so "for every interleaving" is "for every list of actions".

* `Machine.Leads ok s s'` : some run from `s` ends in `s'`, every step of it satisfying `ok`.
* `Machine.ReachableIf ok` : the states of the runs whose steps all satisfy `ok`.
* `Machine.RunIf ok` : the infinite runs; finite ones stop.
* `Machine.exec`, `Machine.execIf` : run a list of actions; this is how concrete runs are evaluated.
* `existsUnique_crossing` : a value that only grows along a history passes each bound once.
-/

namespace Timpani

/-- A machine with states `S` and actions `A`. -/
structure Machine (S A : Type) where
  /-- The initial states. -/
  init : S → Prop
  /-- The state after an action, if the action is enabled. -/
  next : S → A → Option S

namespace Machine

variable {S A : Type} (M : Machine S A)

/-- One step allowed by `ok`, a condition on the state before the step and the action. -/
def StepIf (ok : S → A → Prop) (s s' : S) : Prop := ∃ a, ok s a ∧ M.next s a = some s'

/-- `s'` is the end of a run from `s` all of whose steps are allowed by `ok`. -/
def Leads (ok : S → A → Prop) : S → S → Prop := Relation.ReflTransGen (M.StepIf ok)

/-- The states reached by the runs all of whose steps are allowed by `ok`. -/
def ReachableIf (ok : S → A → Prop) (s : S) : Prop := ∃ s₀, M.init s₀ ∧ M.Leads ok s₀ s

/-- The states reached by any run. -/
def Reachable (s : S) : Prop := M.ReachableIf (fun _ _ => True) s

/-- Run a list of actions. -/
def exec : S → List A → Option S
  | s, [] => some s
  | s, a :: as => (M.next s a).bind fun s' => exec s' as

/-- Run a list of actions as long as every step passes a check. -/
def execIf (check : S → A → Bool) : S → List A → Option S
  | s, [] => some s
  | s, a :: as => if check s a then (M.next s a).bind fun s' => execIf check s' as else none

variable {M} {ok : S → A → Prop} {s s' : S}

theorem ReachableIf.of_init (h : M.init s) : M.ReachableIf ok s := ⟨s, h, .refl⟩

theorem ReachableIf.leads (h : M.ReachableIf ok s) (h' : M.Leads ok s s') :
    M.ReachableIf ok s' := by
  obtain ⟨s₀, h₀, hl⟩ := h
  exact ⟨s₀, h₀, hl.trans h'⟩

theorem ReachableIf.next {a : A} (h : M.ReachableIf ok s) (ha : ok s a)
    (hn : M.next s a = some s') : M.ReachableIf ok s' :=
  h.leads (.single ⟨a, ha, hn⟩)

theorem ReachableIf.mono {ok' : S → A → Prop} (h : M.ReachableIf ok s)
    (hok : ∀ s a, ok s a → ok' s a) : M.ReachableIf ok' s := by
  obtain ⟨s₀, h₀, hl⟩ := h
  exact ⟨s₀, h₀, Relation.ReflTransGen.mono (fun s _ ⟨a, ha, hn⟩ => ⟨a, hok s a ha, hn⟩) _ _ hl⟩

theorem ReachableIf.reachable (h : M.ReachableIf ok s) : M.Reachable s :=
  h.mono fun _ _ _ => trivial

theorem Leads.invariant {I : S → Prop} (h : M.Leads ok s s') (hs : I s)
    (hnext : ∀ s a s', I s → ok s a → M.next s a = some s' → I s') : I s' := by
  induction h with
  | refl => exact hs
  | tail _ hst ih => obtain ⟨a, ha, hn⟩ := hst; exact hnext _ a _ ih ha hn

/-- The rule for invariants: what holds initially and is preserved by every allowed step holds in
every state of such a run. -/
theorem ReachableIf.invariant {I : S → Prop} (h : M.ReachableIf ok s) (h₀ : ∀ s, M.init s → I s)
    (hnext : ∀ s a s', I s → ok s a → M.next s a = some s' → I s') : I s := by
  obtain ⟨s₀, hi, hl⟩ := h
  exact hl.invariant (h₀ s₀ hi) hnext

theorem leads_of_exec {as : List A} (hok : ∀ a ∈ as, ∀ s, ok s a) (h : M.exec s as = some s') :
    M.Leads ok s s' := by
  induction as generalizing s with
  | nil => cases h; exact .refl
  | cons a as ih =>
    obtain ⟨s₁, h₁, h₂⟩ := Option.bind_eq_some_iff.1 h
    exact .head ⟨a, hok a List.mem_cons_self s, h₁⟩
      (ih (fun a ha => hok a (List.mem_cons_of_mem _ ha)) h₂)

theorem leads_of_execIf {check : S → A → Bool} {as : List A}
    (hcheck : ∀ s a, check s a = true → ok s a) (h : M.execIf check s as = some s') :
    M.Leads ok s s' := by
  induction as generalizing s with
  | nil => cases h; exact .refl
  | cons a as ih =>
    obtain ⟨hc, hrest⟩ := Option.ite_none_right_eq_some.1 h
    obtain ⟨s₁, h₁, h₂⟩ := Option.bind_eq_some_iff.1 hrest
    exact .head ⟨a, hcheck s a hc, h₁⟩ (ih h₂)

theorem reachable_of_exec {s₀ : S} {as : List A} (h₀ : M.init s₀) (h : M.exec s₀ as = some s) :
    M.Reachable s :=
  ⟨s₀, h₀, leads_of_exec (fun _ _ _ => trivial) h⟩

/-! ### Infinite runs -/

/-- A run: in every step an allowed action is taken or nothing happens, so a finite run is one that
stops. -/
def RunIf (M : Machine S A) (ok : S → A → Prop) (σ : ℕ → S) : Prop :=
  M.init (σ 0) ∧ ∀ i, M.StepIf ok (σ i) (σ (i + 1)) ∨ σ (i + 1) = σ i

variable {σ : ℕ → S} {i j : ℕ}

theorem RunIf.leads (h : M.RunIf ok σ) (hij : i ≤ j) : M.Leads ok (σ i) (σ j) := by
  induction hij with
  | refl => exact .refl
  | step _ ih =>
    rcases h.2 _ with hstep | heq
    · exact ih.tail hstep
    · rwa [heq]

theorem RunIf.reachableIf (h : M.RunIf ok σ) (i : ℕ) : M.ReachableIf ok (σ i) :=
  ⟨σ 0, h.1, h.leads (Nat.zero_le i)⟩

theorem ReachableIf.exists_runIf (h : M.ReachableIf ok s) :
    ∃ σ, M.RunIf ok σ ∧ ∃ k, ∀ j, k ≤ j → σ j = s := by
  obtain ⟨s₀, h₀, hl⟩ := h
  induction hl with
  | refl => exact ⟨fun _ => s₀, ⟨h₀, fun _ => Or.inr rfl⟩, 0, fun _ _ => rfl⟩
  | @tail s s' _ hstep ih =>
    obtain ⟨σ, hσ, k, hk⟩ := ih
    refine ⟨fun j => if j ≤ k then σ j else s', ⟨?_, fun i => ?_⟩, k + 1, fun j hj => ?_⟩
    · simpa using hσ.1
    · rcases Nat.lt_trichotomy i k with hik | rfl | hik
      · simpa [hik.le, Nat.succ_le_of_lt hik] using hσ.2 i
      · simp only [le_refl, if_true, Nat.not_succ_le_self, if_false, hk i le_rfl]
        exact Or.inl hstep
      · exact Or.inr (by simp [Nat.not_le.2 hik, Nat.not_le.2 (Nat.lt_succ_of_lt hik)])
    · exact if_neg (by omega)

end Machine

/-- A value that only grows along a history passes each bound between its first and its last value in
exactly one step. -/
theorem existsUnique_crossing {α : Type} {f : α → ℕ} {l : List α} {b : ℕ} {first last : α}
    (h : l.IsChain fun x y => f x ≤ f y) (hfirst : l.head? = some first)
    (hlast : l.getLast? = some last) (hle : f first ≤ b) (hlt : b < f last) :
    ∃! i, ∃ x y, l[i]? = some x ∧ l[i + 1]? = some y ∧ f x ≤ b ∧ b < f y := by
  refine existsUnique_of_exists_of_unique ?_ ?_
  · induction l generalizing first with
    | nil => cases hfirst
    | cons x l ih =>
      cases hfirst
      cases l with
      | nil =>
        obtain rfl : x = last := by simpa using hlast
        omega
      | cons y l =>
        by_cases hy : b < f y
        · exact ⟨0, x, y, rfl, rfl, hle, hy⟩
        · obtain ⟨i, x', y', hx', hy', hcross⟩ := ih h.tail rfl (by simpa using hlast)
            (Nat.le_of_not_lt hy)
          exact ⟨i + 1, x', y', by simpa using hx', by simpa using hy', hcross⟩
  · have hmono : ∀ {i j : ℕ} {x y : α}, i ≤ j → l[i]? = some x → l[j]? = some y → f x ≤ f y := by
      have htrans : IsTrans α fun x y => f x ≤ f y := ⟨fun _ _ _ => Nat.le_trans⟩
      intro i j x y hij hx hy
      rcases Nat.eq_or_lt_of_le hij with rfl | hij
      · rw [hx] at hy
        cases hy
        exact Nat.le_refl _
      · obtain ⟨hi, rfl⟩ := List.getElem?_eq_some_iff.1 hx
        obtain ⟨hj, rfl⟩ := List.getElem?_eq_some_iff.1 hy
        exact List.pairwise_iff_getElem.1 (List.isChain_iff_pairwise.1 h) i j hi hj hij
    -- of two crossings the later one starts where the earlier one has ended
    rintro i j ⟨x, y, hx, hy, hxb, hby⟩ ⟨x', y', hx', hy', hxb', hby'⟩
    rcases Nat.lt_trichotomy i j with hij | rfl | hij
    · have := hmono hij hy hx'
      omega
    · rfl
    · have := hmono hij hy' hx
      omega

end Timpani
