import Mathlib.Data.List.Basic

/-!
# Transcripts

A component that answers calls is a function from its state and a call to its next state and a
reply.  What its clients see of a run is the list of the replies.

* `transcript` : the state after a list of calls, and the replies;
* `transcript_map` : a component that simulates another one, call by call, gives the same replies in
  every run.
-/

namespace Timpani

variable {S A R : Type*}

/-- The state after the calls, and the replies. -/
def transcript (answer : S → A → S × R) (s : S) : List A → S × List R
  | [] => (s, [])
  | a :: as =>
    let (s', r) := answer s a
    let (s'', rs) := transcript answer s' as
    (s'', r :: rs)

variable {answer : S → A → S × R}

theorem transcript_cons (s : S) (a : A) (as : List A) :
    transcript answer s (a :: as) =
      ((transcript answer (answer s a).1 as).1,
        (answer s a).2 :: (transcript answer (answer s a).1 as).2) :=
  rfl

/-- **Simulation.**  `f` reads the state of another component, and `g` the call; if one call agrees,
all runs do. -/
theorem transcript_map {T B : Type*} {answer' : T → B → T × R} (f : S → T) (g : A → B)
    (hsim : ∀ s a, answer' (f s) (g a) = (f (answer s a).1, (answer s a).2)) (s : S)
    (as : List A) :
    transcript answer' (f s) (as.map g) =
      (f (transcript answer s as).1, (transcript answer s as).2) := by
  induction as generalizing s with
  | nil => rfl
  | cons a as ih => rw [List.map_cons, transcript_cons, hsim, ih, transcript_cons]

end Timpani
