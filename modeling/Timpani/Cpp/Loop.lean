import Mathlib.Data.List.Forall2
import Mathlib.Data.List.Nodup

/-!
# Loops that may stop with an error

A C++ loop with an early `return error` is a fold in the `Except` monad.  The rules here take such
a fold apart: what a successful loop did at each iteration, and what holds after it.
-/

namespace Timpani

variable {α β ε : Type}

theorem bind_eq_ok {x : Except ε α} {f : α → Except ε β} {r : β} :
    (x >>= f) = .ok r ↔ ∃ a, x = .ok a ∧ f a = .ok r := by
  cases x with
  | error e =>
    constructor
    · intro h; cases h
    · rintro ⟨_, h, _⟩; cases h
  | ok a =>
    constructor
    · intro h; exact ⟨a, rfl, h⟩
    · rintro ⟨_, h, h'⟩; cases h; exact h'

theorem toOption_eq_some {x : Except ε α} {a : α} : x.toOption = some a ↔ x = .ok a := by
  cases x <;> simp [Except.toOption]

theorem foldlM_cons_eq_ok {f : β → α → Except ε β} {x : α} {xs : List α} {b r : β} :
    (x :: xs).foldlM f b = .ok r ↔ ∃ b', f b x = .ok b' ∧ xs.foldlM f b' = .ok r := by
  rw [List.foldlM_cons, bind_eq_ok]

/-- What a loop with early exit establishes when it runs to its end: `motive done acc` is the loop
invariant after the elements `done`. -/
theorem foldlM_ok_induction {f : β → α → Except ε β} {motive : List α → β → Prop} {b r : β}
    {l : List α} (h : l.foldlM f b = .ok r) (h₀ : motive [] b)
    (hstep : ∀ done x acc acc', done ++ [x] <+: l → motive done acc → f acc x = .ok acc' →
      motive (done ++ [x]) acc') : motive l r := by
  suffices key : ∀ (rest done : List α) (acc : β), done ++ rest = l → motive done acc →
      rest.foldlM f acc = .ok r → motive l r from key l [] b rfl h₀ h
  intro rest
  induction rest with
  | nil =>
    intro done acc hl hm hf
    cases hf
    rw [List.append_nil] at hl
    exact hl ▸ hm
  | cons x rest ih =>
    intro done acc hl hm hf
    obtain ⟨acc', hx, hrest⟩ := foldlM_cons_eq_ok.1 hf
    have hl' : done ++ [x] ++ rest = l := by simpa using hl
    exact ih (done ++ [x]) acc' hl' (hstep done x acc acc' ⟨rest, hl'⟩ hm hx) hrest

theorem exists_of_foldlM_eq_error {f : β → α → Except ε β} {l : List α} {b : β} {e : ε}
    (h : l.foldlM f b = .error e) :
    ∃ done x rest acc, l = done ++ x :: rest ∧ done.foldlM f b = .ok acc ∧ f acc x = .error e := by
  induction l generalizing b with
  | nil => cases h
  | cons x l ih =>
    rw [List.foldlM_cons] at h
    cases hx : f b x with
    | error e' =>
      rw [hx] at h
      cases h
      exact ⟨[], x, l, b, rfl, rfl, hx⟩
    | ok b' =>
      rw [hx] at h
      obtain ⟨done, y, rest, acc, rfl, hdone, hy⟩ := ih h
      exact ⟨x :: done, y, rest, acc, rfl, foldlM_cons_eq_ok.2 ⟨b', hx, hdone⟩, hy⟩

theorem exists_foldlM_eq_ok_iff {f : β → α → Except ε β} {l : List α} {b : β} :
    (∃ r, l.foldlM f b = .ok r) ↔ ∀ done x rest acc, l = done ++ x :: rest →
      done.foldlM f b = .ok acc → ∃ acc', f acc x = .ok acc' := by
  constructor
  · rintro ⟨r, h⟩ done x rest acc rfl hdone
    rw [List.foldlM_append, hdone] at h
    obtain ⟨acc', hx, -⟩ := foldlM_cons_eq_ok.1 h
    exact ⟨acc', hx⟩
  · intro h
    cases hl : l.foldlM f b with
    | ok r => exact ⟨r, rfl⟩
    | error e =>
      obtain ⟨done, x, rest, acc, hsplit, hdone, hx⟩ := exists_of_foldlM_eq_error hl
      obtain ⟨acc', hx'⟩ := h done x rest acc hsplit hdone
      cases hx.symm.trans hx'

theorem exists_foldlM_of_simulation {σ τ ε' : Type} {R : σ → τ → Prop} {f : σ → α → Except ε σ}
    {g : τ → α → Except ε' τ}
    (hstep : ∀ a s t s₁, R s t → f s a = .ok s₁ → ∃ t₁, g t a = .ok t₁ ∧ R s₁ t₁)
    {l : List α} {s s₁ : σ} {t : τ} (hR : R s t) (h : l.foldlM f s = .ok s₁) :
    ∃ t₁, l.foldlM g t = .ok t₁ ∧ R s₁ t₁ := by
  induction l generalizing s t with
  | nil => cases h; exact ⟨t, rfl, hR⟩
  | cons a l ih =>
    obtain ⟨s', hs', h⟩ := foldlM_cons_eq_ok.1 h
    obtain ⟨t', ht', hR'⟩ := hstep a s t s' hR hs'
    obtain ⟨t₁, ht₁, hR₁⟩ := ih hR' h
    exact ⟨t₁, foldlM_cons_eq_ok.2 ⟨t', ht', ht₁⟩, hR₁⟩

theorem foldlM_flatMap {γ : Type} {f : β → γ → Except ε β} (g : α → List γ) (l : List α) (b : β) :
    (l.flatMap g).foldlM f b = l.foldlM (fun b a => (g a).foldlM f b) b := by
  induction l generalizing b with
  | nil => rfl
  | cons a l ih =>
    rw [List.flatMap_cons, List.foldlM_append, List.foldlM_cons]
    exact congrArg _ (funext ih)

theorem mapM_eq_ok {f : α → Except ε β} {l : List α} {r : List β} :
    l.mapM f = .ok r ↔ List.Forall₂ (fun a b => f a = .ok b) l r := by
  induction l generalizing r with
  | nil =>
    rw [List.mapM_nil, List.forall₂_nil_left_iff]
    constructor
    · intro h; cases h; rfl
    · intro h; rw [h]; rfl
  | cons a l ih =>
    rw [List.mapM_cons, bind_eq_ok, List.forall₂_cons_left_iff]
    constructor
    · rintro ⟨b, hb, h⟩
      obtain ⟨bs, hbs, h⟩ := bind_eq_ok.1 h
      cases h
      exact ⟨b, bs, hb, ih.1 hbs, rfl⟩
    · rintro ⟨b, bs, hb, hbs, rfl⟩
      exact ⟨b, hb, bind_eq_ok.2 ⟨bs, ih.2 hbs, rfl⟩⟩

theorem exists_mapM_eq_ok {f : α → Except ε β} {l : List α} (h : ∀ a ∈ l, ∃ b, f a = .ok b) :
    ∃ r, l.mapM f = .ok r := by
  simp only [mapM_eq_ok]
  induction l with
  | nil => exact ⟨[], .nil⟩
  | cons a l ih =>
    obtain ⟨b, hb⟩ := h a List.mem_cons_self
    obtain ⟨r, hr⟩ := ih fun x hx => h x (List.mem_cons_of_mem _ hx)
    exact ⟨b :: r, .cons hb hr⟩

theorem exists_of_forall₂_left {R : α → β → Prop} {l : List α} {r : List β}
    (h : List.Forall₂ R l r) {a : α} (ha : a ∈ l) : ∃ b ∈ r, R a b := by
  induction h with
  | nil => cases ha
  | cons hab _ ih =>
    rcases List.mem_cons.1 ha with rfl | ha
    · exact ⟨_, List.mem_cons_self, hab⟩
    · obtain ⟨b, hb, hR⟩ := ih ha
      exact ⟨b, List.mem_cons_of_mem _ hb, hR⟩

theorem exists_of_forall₂_right {R : α → β → Prop} {l : List α} {r : List β}
    (h : List.Forall₂ R l r) {b : β} (hb : b ∈ r) : ∃ a ∈ l, R a b :=
  exists_of_forall₂_left (R := flip R) h.flip hb

theorem exists_tag_of_forall₂ {R : α → β → Prop} {l : List α} {r : List β}
    (h : List.Forall₂ R l r) : ∃ tag : Fin l.length → β, (∀ j, R (l.get j) (tag j)) ∧
      (∀ b, b ∈ r ↔ ∃ j, tag j = b) ∧ (r.Nodup → Function.Injective tag) := by
  have hlen := h.length_eq
  refine ⟨fun j => r.get (j.cast hlen), fun j => h.get j.isLt (j.cast hlen).isLt, fun b => ?_, ?_⟩
  · rw [List.mem_iff_get]
    exact ⟨fun ⟨i, hi⟩ => ⟨i.cast hlen.symm, hi⟩, fun ⟨j, hj⟩ => ⟨j.cast hlen, hj⟩⟩
  · intro hnd i j hij
    have hcast : i.cast hlen = j.cast hlen := hnd.injective_get hij
    have hval : (i.cast hlen).val = (j.cast hlen).val := congrArg Fin.val hcast
    exact Fin.ext hval

theorem forall₂_comp {γ : Type} {R : α → β → Prop} {S : β → γ → Prop} {l : List α} {m : List β}
    {r : List γ} (h : List.Forall₂ R l m) (h' : List.Forall₂ S m r) :
    List.Forall₂ (fun a c => ∃ b, R a b ∧ S b c) l r := by
  induction h generalizing r with
  | nil => cases h'; exact .nil
  | cons hab _ ih =>
    cases h' with
    | cons hbc h' => exact .cons ⟨_, hab, hbc⟩ (ih h')

end Timpani
