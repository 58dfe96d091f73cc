import Mathlib

/-!
# Watch channels

A model of `tokio::sync::watch`: one value that the sender overwrites, and receivers that read it
and wait for it to change.  The channel counts its versions and every receiver remembers the version
it has seen last.  Receivers are told apart by a handle.

* `Watch.LastSaw` : what a receiver that is up to date has seen;
* `Watch.LastSaw.send`, … : it survives whatever the sender and the other receivers do;
* `Watch.LastSaw.value_of_closed` : a receiver that finds the channel closed has seen its last value.
-/

namespace Timpani

structure Watch (α : Type) where
  value : α
  version : ℕ
  /-- The version each live receiver has seen. -/
  receivers : Std.ExtTreeMap ℕ ℕ
  /-- The sender has been dropped. -/
  closed : Bool

namespace Watch

variable {α : Type}

/-- `watch::channel`, whose first receiver is dropped at once. -/
def new (value : α) : Watch α where
  value := value
  version := 0
  receivers := ∅
  closed := false

/-- `Sender::subscribe`: the current value counts as seen. -/
def subscribe (w : Watch α) (handle : ℕ) : Watch α :=
  { w with receivers := w.receivers.insert handle w.version }

/-- `Sender::send`, which fails and changes nothing if no receiver is left. -/
def send (w : Watch α) (value : α) : Watch α :=
  if w.receivers.isEmpty then w else { w with value := value, version := w.version + 1 }

/-- What `Receiver::borrow_and_update` does to the channel; it returns the value. -/
def update (w : Watch α) (handle : ℕ) : Watch α :=
  { w with receivers := w.receivers.insert handle w.version }

/-- `Receiver::changed`: ready with `true` if there is a version the receiver has not seen, ready
with `false` if there is none and there will be none, pending otherwise. -/
def changed (w : Watch α) (handle : ℕ) : Option Bool :=
  w.receivers[handle]?.bind fun seen =>
    if seen ≠ w.version then some true else if w.closed then some false else none

def dropReceiver (w : Watch α) (handle : ℕ) : Watch α :=
  { w with receivers := w.receivers.erase handle }

def dropSender (w : Watch α) : Watch α := { w with closed := true }

variable {w : Watch α} {handle handle' : ℕ} {v v' : α}

@[simp] theorem value_new : (new v).value = v := rfl

@[simp] theorem value_subscribe : (w.subscribe handle).value = w.value := rfl

@[simp] theorem value_update : (w.update handle).value = w.value := rfl

@[simp] theorem value_dropReceiver : (w.dropReceiver handle).value = w.value := rfl

@[simp] theorem value_dropSender : w.dropSender.value = w.value := rfl

theorem send_cases (w : Watch α) (v : α) :
    w.receivers.isEmpty = true ∧ w.send v = w ∨
      w.receivers.isEmpty = false ∧ w.send v = { w with value := v, version := w.version + 1 } := by
  unfold send
  split_ifs with h
  · exact Or.inl ⟨h, rfl⟩
  · exact Or.inr ⟨Bool.eq_false_iff.2 h, rfl⟩

theorem value_send (w : Watch α) (v : α) : (w.send v).value = w.value ∨ (w.send v).value = v := by
  rcases w.send_cases v with ⟨-, h⟩ | ⟨-, h⟩ <;> rw [h]
  · exact Or.inl rfl
  · exact Or.inr rfl

theorem value_send_subscribe : ((w.subscribe handle).send v).value = v := by
  rcases (w.subscribe handle).send_cases v with ⟨hempty, -⟩ | ⟨-, h⟩
  · simp [subscribe] at hempty
  · rw [h]

/-! ### What a receiver has seen -/

/-- The receiver is alive and, if it is up to date, the value it has seen is `v`. -/
def LastSaw (w : Watch α) (handle : ℕ) (v : α) : Prop :=
  ∃ seen, w.receivers[handle]? = some seen ∧ seen ≤ w.version ∧ (seen = w.version → w.value = v)

theorem lastSaw_update : (w.update handle).LastSaw handle w.value :=
  ⟨w.version, by simp [update], le_rfl, fun _ => rfl⟩

theorem LastSaw.subscribe (h : w.LastSaw handle v) (hne : handle ≠ handle') :
    (w.subscribe handle').LastSaw handle v := by
  obtain ⟨seen, hseen, hle, hv⟩ := h
  refine ⟨seen, ?_, hle, hv⟩
  simpa [Watch.subscribe, Std.ExtTreeMap.getElem?_insert, hne.symm] using hseen

theorem LastSaw.update (h : w.LastSaw handle v) (hne : handle ≠ handle') :
    (w.update handle').LastSaw handle v :=
  h.subscribe hne

theorem LastSaw.send (h : w.LastSaw handle v) (v' : α) : (w.send v').LastSaw handle v := by
  obtain ⟨seen, hseen, hle, hv⟩ := h
  rcases w.send_cases v' with ⟨-, hsend⟩ | ⟨-, hsend⟩ <;> rw [hsend]
  · exact ⟨seen, hseen, hle, hv⟩
  · refine ⟨seen, hseen, Nat.le_succ_of_le hle, ?_⟩
    rintro rfl
    exact absurd hle (Nat.not_succ_le_self _)

theorem LastSaw.dropReceiver (h : w.LastSaw handle v) (hne : handle ≠ handle') :
    (w.dropReceiver handle').LastSaw handle v := by
  obtain ⟨seen, hseen, hle, hv⟩ := h
  refine ⟨seen, ?_, hle, hv⟩
  simpa [Watch.dropReceiver, Std.ExtTreeMap.getElem?_erase, hne.symm] using hseen

theorem LastSaw.dropSender (h : w.LastSaw handle v) : w.dropSender.LastSaw handle v := h

/-- A receiver that finds the channel closed has seen its last value. -/
theorem LastSaw.value_of_closed (h : w.LastSaw handle v) (hclosed : w.changed handle = some false) :
    w.value = v := by
  obtain ⟨seen, hseen, -, hv⟩ := h
  rw [changed, hseen, Option.bind_some] at hclosed
  split_ifs at hclosed with hseen'
  · cases hclosed
  · exact hv (not_not.1 hseen')

end Watch

end Timpani
