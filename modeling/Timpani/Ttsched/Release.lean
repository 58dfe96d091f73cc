import Timpani.Ttsched.Client
import Timpani.Ttsched.Slots

/-!
# A task is released by its own slot

`ttsched_wait_next_period` returns 0 when the counter of the task's slot has changed or `FUTEX_WAKE`
was called on it, and the magic word is there afterwards.  That is not yet a release: a table update
changes all counters, wakes everybody and restores the magic word at its end.  A client that is slow
to wake up does not notice the update and runs its task.  So does a client that reads the counter
between the two accesses of `wake_task`.

When such updates and such reads do not happen (`Undisturbed`), a return value of 0 means that
`wake_task` was called for the task during the wait (`released_by_wakeTask`).  The invariant says
what the client may rely on while the magic word is there.  An update removes the word first, so
nothing is claimed during the update; and when it puts the word back, the client either relies on
nothing or will see that the generation is another one.

* `ReleaseState.settled` : the calls of TimerMaster as a whole;
* `ReleaseState.Inv` : the invariant;
* `released_by_wakeTask` : **a task is released by its own slot**, in undisturbed runs;
* `not_released_by_wakeTask` : an update during the wait releases the task early.
-/

namespace Timpani

namespace Ttsched

open TimerMaster (SlotEntry)

variable {stdSort : StdSort} {me : Task} {slots : List SlotEntry}

/-! ### Slots with the name of the task -/

/-- Slots belong to one task each, and those with the name of the client's task to this task. -/
structure Publisher.Exclusive (me : Task) (p : Publisher) : Prop where
  inj : ∀ (h h' : UInt64) i, p.taskHashToShmIdx[h]? = some i →
    p.taskHashToShmIdx[h']? = some i → h = h'
  owner : ∀ (h : UInt64) i, p.taskHashToShmIdx[h]? = some i →
    strncmp 15 (p.shm.tasks i).name me.myName = true → h = me.hash

/-- Only the client's task has its name. -/
def NameUnique (me : Task) (slots : List SlotEntry) : Prop :=
  ∀ e ∈ slots, cTake 15 e.taskName = cTake 15 me.name → e.taskIdHash = me.hash

instance : Decidable (NameUnique me slots) :=
  inferInstanceAs (Decidable (∀ e ∈ slots, _))

namespace Publisher

variable {p : Publisher}

theorem exclusive_new (shm : Shm) : (new shm).Exclusive me where
  inj := by simp [new]
  owner := by simp [new]

theorem Exclusive.setScheduleTable (h : p.Exclusive me) (hname : NameUnique me slots) :
    (p.setScheduleTable stdSort slots).Exclusive me := by
  have hmem : ∀ {e}, e ∈ TimerMaster.setScheduleTable stdSort slots ↔ e ∈ slots := fun {e} =>
    (stdSort.perm (StrictWeak.of_uint64_lt.comap SlotEntry.offsetNs) slots).mem_iff
  obtain ⟨halloc, -, -⟩ := allocate_spec h.inj
  obtain ⟨-, -, shm₁, -, htasks⟩ := run_publication p.shm p.taskHashToShmIdx
    (TimerMaster.setScheduleTable stdSort slots)
  refine ⟨halloc.inj, fun x i hx heq => ?_⟩
  obtain ⟨e, he, rfl, hholds⟩ := halloc.named x i hx
  have hcmp := strncmp_of_holds (hholds shm₁) me.name
  rw [← htasks] at hcmp
  exact hname e (hmem.1 he) (hcmp.1 heq)

theorem Exclusive.wakeTask (h : p.Exclusive me) (hash : UInt64) :
    (p.wakeTask hash).Exclusive me := by
  unfold Publisher.wakeTask
  split
  · rename_i idx hidx
    refine ⟨h.inj, fun x i hx heq => h.owner x i hx ?_⟩
    simp only [wakeSteps, Shm.run_cons, Shm.run_nil, ShmStep.apply] at heq
    by_cases hi : i = idx
    · rwa [hi, Shm.tasks_modifyTask_self, ← hi] at heq
    · rwa [Shm.tasks_modifyTask_of_ne _ _ hi] at heq
  · exact h

end Publisher

/-! ### The accesses of an update -/

/-- An access that leaves the magic word and the generation alone. -/
def ShmStep.isQuiet : ShmStep → Bool
  | setMagic _ | addGeneration => false
  | _ => true

/-- What is left of an update that has removed the magic word and not yet incremented the
generation. -/
inductive Unannounced : List ShmStep → Prop
  | generation : Unannounced [.addGeneration, .setMagic magicWord]
  | cons {step : ShmStep} {rest : List ShmStep} :
      step.isQuiet = true → Unannounced rest → Unannounced (step :: rest)

theorem Unannounced.ne_singleton {rest : List ShmStep} (h : Unannounced rest) (step : ShmStep) :
    rest ≠ [step] := by
  rintro rfl
  cases h with
  | cons _ h => cases h

theorem Unannounced.append {steps rest : List ShmStep} (hq : ∀ step ∈ steps, step.isQuiet = true)
    (h : Unannounced rest) : Unannounced (steps ++ rest) := by
  induction steps with
  | nil => exact h
  | cons step steps ih =>
    exact .cons (hq step List.mem_cons_self) (ih fun st hst => hq st (List.mem_cons_of_mem _ hst))

theorem isQuiet_assign {A : Allocation} (h : ∀ step ∈ A.writes, step.isQuiet = true)
    (entry : SlotEntry) (idx : Fin maxTasks) (isNew : Bool) :
    ∀ step ∈ (A.assign entry idx isNew).writes, step.isQuiet = true := by
  intro step hstep
  simp only [Allocation.assign, List.mem_append] at hstep
  rcases hstep with (hstep | hstep) | hstep
  · exact h step hstep
  · obtain ⟨k, -, rfl⟩ := List.mem_map.1 hstep
    rfl
  · cases isNew with
    | false => simp at hstep
    | true =>
      obtain rfl : step = .setCounter idx 0 := by simpa using hstep
      rfl

theorem isQuiet_allocate (prev : ShmMapping) (slotTable : List SlotEntry) :
    ∀ step ∈ (allocate prev slotTable).writes, step.isQuiet = true := by
  unfold allocate
  refine List.foldlRecOn slotTable Allocation.newStep
    (motive := fun A => ∀ step ∈ A.writes, step.isQuiet = true) ?_ fun A hA entry _ => ?_
  · refine List.foldlRecOn slotTable (Allocation.keepStep prev)
      (motive := fun A => ∀ step ∈ A.writes, step.isQuiet = true) ?_ fun A hA entry _ => ?_
    · exact List.forall_mem_nil _
    unfold Allocation.keepStep
    split_ifs
    · exact hA
    · split
      · split_ifs
        · exact hA
        · exact isQuiet_assign hA _ _ _
      · exact hA
  · unfold Allocation.newStep
    split_ifs
    · exact hA
    · split
      · exact isQuiet_assign hA _ _ _
      · exact hA

theorem unannounced_publication (prev : ShmMapping) (slotTable : List SlotEntry) :
    Unannounced (publication prev slotTable).tail := by
  simp only [publication, List.cons_append, List.tail_cons, List.append_assoc]
  refine .append (fun step hstep => ?_)
    (.append (isQuiet_allocate prev slotTable) (.cons rfl .generation))
  obtain ⟨i, -, hstep⟩ := List.mem_flatMap.1 hstep
  simp only [List.mem_cons, List.not_mem_nil, or_false] at hstep
  rcases hstep with rfl | rfl <;> rfl

theorem ShmStep.apply_of_isQuiet {step : ShmStep} (h : step.isQuiet = true) (shm : Shm) :
    (step.apply shm).magic = shm.magic ∧ (step.apply shm).generation = shm.generation := by
  cases step with
  | setMagic v => cases h
  | addGeneration => cases h
  | addCounter | futexWake | setNameByte | setCounter | setNTasks => exact ⟨rfl, rfl⟩

/-! ### The condition -/

/-- The search relies on the magic word once it has seen it. -/
def FindPc.relies : FindPc → Bool
  | .magic => false
  | .nTasks | .scan .. => true

/-- The client relies on the magic word that it has seen before a search, or on an index. -/
def Client.exposed (c : Client) : Bool :=
  match c.pc with
  | .find _ pc => pc.relies
  | .initGeneration _ => c.taskIdx.isSome
  | .readCounter | .futexWait _ | .blocked _ | .checkShutdown => true
  | .outside _ | .openShm _ | .checkMagic | .recheckMagic | .checkGeneration
  | .reloadGeneration => false

/-- TimerMaster is between the two accesses of a `wake_task` to a slot. -/
def TimerCall.isWaking (i : Fin maxTasks) : TimerCall → Bool
  | waking idx => idx = i
  | _ => false

/-- The condition on the steps of a run.  A table gives the name of the client's task to this task
only.  No update increments the generation while the client relies on what it has read, or brings
the generation back to the one that the client remembers.  And the client does not read the counter
between the two accesses of a `wake_task`. -/
def Undisturbed (me : Task) (s : ReleaseState) : ReleaseAction → Prop
  | .setScheduleTable slots => NameUnique me slots
  | .timer => s.timer.nextStep = some .addGeneration → s.client.exposed = false ∧
      (s.client.taskIdx.isSome → s.shm.generation + 1 ≠ s.client.shmGeneration)
  | .client _ => s.client.pc = .readCounter →
      ∀ i, s.client.taskIdx = some i → s.timer.isWaking i = false
  | _ => True

instance (s : ReleaseState) : (a : ReleaseAction) → Decidable (Undisturbed me s a)
  | .setScheduleTable slots => inferInstanceAs (Decidable (NameUnique me slots))
  | .timer => inferInstanceAs (Decidable (_ → _ ∧ (_ → _)))
  | .client _ => inferInstanceAs (Decidable (_ → ∀ _, _ → _))
  | .callInit | .callWait | .signal | .wakeTask _ => inferInstanceAs (Decidable True)

/-- The bytes that were compared are those of the name. -/
def FindPc.Sound (me : Task) (shm : Shm) : FindPc → Prop
  | .scan _ i k => ∀ hi : i < maxTasks, ∀ j < k, (shm.tasks ⟨i, hi⟩).name j = me.myName j
  | .magic | .nTasks => True

namespace ReleaseState

variable {s s' : ReleaseState}

/-! ### The calls of TimerMaster as a whole -/

/-- What TimerMaster has published once its call has returned. -/
def settled (s : ReleaseState) : Publisher :=
  match s.timer with
  | .publishing rest mapping => ⟨s.shm.run rest, mapping⟩
  | _ => ⟨s.shm, s.taskHashToShmIdx⟩

theorem settled_of_isFree (h : s.timer.isFree = true) :
    s.settled = ⟨s.shm, s.taskHashToShmIdx⟩ := by
  unfold settled
  cases ht : s.timer with
  | free => rfl
  | publishing rest mapping => rw [ht] at h; cases h
  | waking idx => rfl

theorem settled_setScheduleTable (h : s.timer.isFree = true) :
    (s.setScheduleTable stdSort slots).settled = s.settled.setScheduleTable stdSort slots := by
  rw [settled_of_isFree h]
  rfl

theorem settled_wakeTask (h : s.timer.isFree = true) (hash : UInt64) :
    (s.wakeTask me hash).settled = s.settled.wakeTask hash := by
  rw [settled_of_isFree h, wakeTask, Publisher.wakeTask]
  dsimp only
  cases hidx : s.taskHashToShmIdx[hash]? with
  | none => exact settled_of_isFree h
  | some idx => rfl

/-- **The accesses after the first one** belong to a call that has been counted already. -/
theorem settled_timerStep (h : s.timerStep = some s') : s'.settled = s.settled := by
  unfold timerStep at h
  unfold settled
  split at h
  · cases h
  · cases h
  · rename_i step mapping ht
    cases h
    rw [ht]
    rfl
  · rename_i step rest mapping _ ht
    cases h
    rw [ht]
    rfl
  · rename_i idx ht
    cases h
    rw [ht]

/-! ### The invariant -/

/-- Nobody else is woken through a slot. -/
def Owned (me : Task) (s : ReleaseState) (i : Fin maxTasks) : Prop :=
  ∀ h : UInt64, s.taskHashToShmIdx[h]? = some i → h = me.hash

/-- What the client relies on is true. -/
def Sound (me : Task) (s : ReleaseState) : Prop :=
  match s.client.pc with
  | .find _ pc => pc.Sound me s.shm
  | .initGeneration _ | .readCounter => ∀ i, s.client.taskIdx = some i → s.Owned me i
  | .futexWait current | .blocked current => ∀ i, s.client.taskIdx = some i → s.Owned me i ∧
      (s.woken = true ∨ (s.shm.tasks i).counter = current ∧ s.timer.isWaking i = false)
  | .checkShutdown => s.woken = true
  | .outside _ | .openShm _ | .checkMagic | .recheckMagic | .checkGeneration
  | .reloadGeneration => True

/-- **The invariant.** -/
structure Inv (me : Task) (s : ReleaseState) : Prop where
  exclusive : s.settled.Exclusive me
  stage : ∀ rest mapping, s.timer = .publishing rest mapping →
    s.shm.magic ≠ magicWord ∧ (rest = [.setMagic magicWord] ∨ Unannounced rest)
  sound : s.shm.magic = magicWord → s.Sound me
  /-- An index is good as long as the generation is the same. -/
  fresh : s.shm.magic = magicWord → ∀ i, s.client.taskIdx = some i →
    s.shm.generation = s.client.shmGeneration → s.Owned me i
  /-- Before the magic word comes back. -/
  announced : ∀ mapping, s.timer = .publishing [.setMagic magicWord] mapping →
    s.client.exposed = false ∧
      ∀ i, s.client.taskIdx = some i → s.shm.generation ≠ s.client.shmGeneration
  returned : s.client.pc = .outside (some true) → s.woken = true

theorem sound_of_not_exposed (h : s.client.exposed = false) : s.Sound me := by
  unfold Sound
  cases hpc : s.client.pc with
  | find who pc =>
    cases pc with
    | magic => trivial
    | nTasks | scan => simp [Client.exposed, hpc, FindPc.relies] at h
  | initGeneration who =>
    simp only [Client.exposed, hpc] at h
    intro i hi
    rw [hi] at h
    cases h
  | readCounter | futexWait current | blocked current | checkShutdown =>
    simp [Client.exposed, hpc] at h
  | outside r | openShm who => trivial
  | checkMagic | recheckMagic | checkGeneration | reloadGeneration => trivial

theorem Inv.of_init {shm : Shm} :
    Inv me ⟨(Publisher.new shm).shm, ∅, .free, .new, false⟩ where
  exclusive := Publisher.exclusive_new shm
  stage := by simp
  sound := fun _ => trivial
  fresh := by simp [Client.new]
  announced := by simp
  returned := by simp [Client.new]

/-! ### Steps of TimerMaster -/

theorem Inv.setScheduleTable (h : Inv me s) (hfree : s.timer.isFree = true)
    (hname : NameUnique me slots) : Inv me (s.setScheduleTable stdSort slots) := by
  have hmagic : (s.setScheduleTable stdSort slots).shm.magic ≠ magicWord :=
    show (0 : UInt32) ≠ magicWord by decide
  have hrest := unannounced_publication s.taskHashToShmIdx
    (TimerMaster.setScheduleTable stdSort slots)
  refine ⟨?_, fun rest mapping ht => ?_, fun hm => absurd hm hmagic, fun hm => absurd hm hmagic,
    fun mapping ht => ?_, h.returned⟩
  · rw [settled_setScheduleTable hfree]
    exact h.exclusive.setScheduleTable hname
  · cases ht
    exact ⟨hmagic, Or.inr hrest⟩
  · have hone : (publication s.taskHashToShmIdx (TimerMaster.setScheduleTable stdSort slots)).tail =
        [.setMagic magicWord] := (TimerCall.publishing.inj ht).1
    exact absurd hone (hrest.ne_singleton _)

/-- The increment of `wake_task`: if it is the counter of the client that changes, the call is for
the client's task. -/
theorem Sound.addCounter (h : s.Sound me) {hash : UInt64} {idx : Fin maxTasks}
    (hidx : s.taskHashToShmIdx[hash]? = some idx) :
    Sound me { s with
      shm := (ShmStep.addCounter idx).apply s.shm
      timer := .waking idx
      woken := s.woken || hash == me.hash } := by
  have hwait : ∀ i, s.Owned me i → (current : UInt32) →
      (s.woken = true ∨ (s.shm.tasks i).counter = current ∧ s.timer.isWaking i = false) →
      ((s.woken || hash == me.hash) = true ∨
        (((ShmStep.addCounter idx).apply s.shm).tasks i).counter = current ∧
          (TimerCall.waking idx).isWaking i = false) := by
    intro i howned current hs
    by_cases hi : i = idx
    · subst hi
      simp [howned hash hidx]
    · rw [ShmStep.apply, Shm.tasks_modifyTask_of_ne _ _ hi, Bool.or_eq_true]
      rcases hs with hs | ⟨hs, -⟩
      · exact Or.inl (Or.inl hs)
      · exact Or.inr ⟨hs, by simpa [TimerCall.isWaking] using Ne.symm hi⟩
  have hname : ∀ i, (((ShmStep.addCounter idx).apply s.shm).tasks i).name =
      (s.shm.tasks i).name := by
    intro i
    by_cases hi : i = idx
    · rw [ShmStep.apply, hi, Shm.tasks_modifyTask_self]
    · rw [ShmStep.apply, Shm.tasks_modifyTask_of_ne _ _ hi]
  unfold Sound at h ⊢
  dsimp only
  cases hpc : s.client.pc with
  | find who pc =>
    rw [hpc] at h
    cases pc with
    | magic | nTasks => trivial
    | scan n i k =>
      intro hi j hj
      rw [hname]
      exact h hi j hj
  | initGeneration who | readCounter =>
    rw [hpc] at h
    exact h
  | futexWait current | blocked current =>
    rw [hpc] at h
    exact fun i hi => ⟨(h i hi).1, hwait i (h i hi).1 _ (h i hi).2⟩
  | checkShutdown =>
    rw [hpc] at h
    exact Bool.or_eq_true_iff.2 (Or.inl h)
  | outside r | openShm who => trivial
  | checkMagic | recheckMagic | checkGeneration | reloadGeneration => trivial

theorem Inv.wakeTask (h : Inv me s) (hfree : s.timer.isFree = true) (hash : UInt64) :
    Inv me (s.wakeTask me hash) := by
  have hexcl : (s.wakeTask me hash).settled.Exclusive me := by
    rw [settled_wakeTask hfree]
    exact h.exclusive.wakeTask hash
  unfold ReleaseState.wakeTask at hexcl ⊢
  split at hexcl
  · rename_i idx hidx
    exact ⟨hexcl, by simp, fun hm => (h.sound hm).addCounter hidx, h.fresh, by simp,
      fun hpc => by rw [h.returned hpc, Bool.true_or]⟩
  · exact h

theorem Sound.free (h : s.Sound me) : Sound me { s with timer := .free } := by
  unfold Sound at h ⊢
  dsimp only
  cases hpc : s.client.pc with
  | futexWait current | blocked current =>
    rw [hpc] at h
    exact fun i hi => ⟨(h i hi).1, (h i hi).2.imp_right fun hc => ⟨hc.1, rfl⟩⟩
  | find who pc =>
    rw [hpc] at h
    exact h
  | initGeneration who | readCounter | checkShutdown =>
    rw [hpc] at h
    exact h
  | outside r | openShm who => trivial
  | checkMagic | recheckMagic | checkGeneration | reloadGeneration => trivial

theorem Inv.wake (h : Inv me s) {idx : Fin maxTasks} (ht : s.timer = .waking idx) :
    Inv me { s with client := s.client.wake idx, timer := .free } := by
  have hexcl := h.exclusive
  have hsettled : s.settled = ⟨s.shm, s.taskHashToShmIdx⟩ := by rw [settled, ht]
  rw [hsettled] at hexcl
  have hsame : Inv me { s with timer := .free } :=
    ⟨hexcl, by simp, fun hm => (h.sound hm).free, h.fresh, by simp, h.returned⟩
  unfold Client.wake
  split
  · rename_i current hpc
    split_ifs with hi
    · refine ⟨hexcl, by simp, fun hm => ?_, h.fresh, by simp, by simp⟩
      -- a client that is woken after the increment has read the counter before it
      have hsound := h.sound hm
      simp only [Sound, hpc] at hsound
      rcases (hsound idx hi).2 with hw | ⟨-, hnot⟩
      · exact hw
      · rw [ht] at hnot
        simp [TimerCall.isWaking] at hnot
    · exact hsame
  · exact hsame

theorem outside_of_observe {c : Client} {step : ShmStep} {r : Option Bool}
    (h : (c.observe step).pc = .outside r) : c.pc = .outside r := by
  cases step with
  | futexWake i n =>
    simp only [Client.observe, Client.wake] at h
    split at h
    · split_ifs at h
      exact h
    · exact h
  | setMagic | addCounter | setNameByte | setCounter | setNTasks | addGeneration => exact h

/-- **The accesses of TimerMaster** keep the invariant. -/
theorem Inv.timerStep (h : Inv me s) (hok : Undisturbed me s .timer)
    (hstep : s.timerStep = some s') : Inv me s' := by
  have hexcl : s'.settled.Exclusive me := by
    rw [settled_timerStep hstep]
    exact h.exclusive
  unfold ReleaseState.timerStep at hstep
  split at hstep
  · cases hstep
  · cases hstep
  · -- the magic word comes back
    rename_i step mapping ht
    cases hstep
    obtain ⟨-, hrest⟩ := h.stage _ _ ht
    obtain rfl : step = .setMagic magicWord := by
      rcases hrest with hrest | hrest
      · exact (List.cons.inj hrest).1
      · exact absurd rfl (hrest.ne_singleton step)
    obtain ⟨hexp, hgen⟩ := h.announced mapping ht
    exact ⟨hexcl, by simp, fun _ => sound_of_not_exposed hexp,
      fun _ i hi heq => absurd heq (hgen i hi), by simp, h.returned⟩
  · rename_i step rest mapping hne ht
    cases hstep
    obtain ⟨hmagic, hrest⟩ := h.stage _ _ ht
    have hrest : Unannounced (step :: rest) := by
      rcases hrest with hrest | hrest
      · exact absurd (List.cons.inj hrest).2 (by simpa using hne)
      · exact hrest
    cases hrest with
    | generation =>
      have hok := hok (by rw [ht]; rfl)
      refine ⟨hexcl, fun rest mapping ht => ?_, fun hm => absurd hm hmagic,
        fun hm => absurd hm hmagic, fun mapping ht => ⟨hok.1, fun i hi => ?_⟩, h.returned⟩
      · cases ht
        exact ⟨hmagic, Or.inl rfl⟩
      · exact hok.2 (by rw [show s.client.taskIdx = some i from hi]; rfl)
    | cons hquiet hrest =>
      have hmagic : (step.apply s.shm).magic ≠ magicWord := by
        rwa [(ShmStep.apply_of_isQuiet hquiet s.shm).1]
      refine ⟨hexcl, fun rest mapping ht => ?_, fun hm => absurd hm hmagic,
        fun hm => absurd hm hmagic, fun mapping ht => ?_, fun hpc => ?_⟩
      · cases ht
        exact ⟨hmagic, Or.inr hrest⟩
      · exact absurd (TimerCall.publishing.inj ht).1 (hrest.ne_singleton _)
      · exact h.returned (outside_of_observe hpc)
  · rename_i idx ht
    cases hstep
    exact h.wake ht

/-! ### Steps of the client -/

theorem Inv.setClient (h : Inv me s) {c : Client} {w : Bool}
    (hsound : s.shm.magic = magicWord → Sound me { s with client := c, woken := w })
    (hfresh : s.shm.magic = magicWord → ∀ i, c.taskIdx = some i →
      s.shm.generation = c.shmGeneration → s.Owned me i)
    (hannounced : s.shm.magic ≠ magicWord → s.client.exposed = false →
      (∀ i, s.client.taskIdx = some i → s.shm.generation ≠ s.client.shmGeneration) →
      c.exposed = false ∧ ∀ i, c.taskIdx = some i → s.shm.generation ≠ c.shmGeneration)
    (hreturned : c.pc = .outside (some true) → w = true) :
    Inv me { s with client := c, woken := w } where
  exclusive := h.exclusive
  stage := h.stage
  sound := hsound
  fresh := hfresh
  announced := fun mapping ht =>
    hannounced (h.stage _ _ ht).1 (h.announced mapping ht).1 (h.announced mapping ht).2
  returned := hreturned

theorem Inv.calm (h : Inv me s) {c : Client} {w : Bool} (hexp : c.exposed = false)
    (hidx : c.taskIdx = none ∨
      c.taskIdx = s.client.taskIdx ∧ c.shmGeneration = s.client.shmGeneration)
    (hreturned : c.pc = .outside (some true) → w = true) :
    Inv me { s with client := c, woken := w } := by
  refine h.setClient (fun _ => sound_of_not_exposed hexp) (fun hm i hi heq => ?_)
    (fun _ _ hgen => ⟨hexp, fun i hi => ?_⟩) hreturned
  · rcases hidx with hnone | ⟨hsame, hg⟩
    · rw [hnone] at hi
      cases hi
    · exact h.fresh hm i (hsame ▸ hi) (hg ▸ heq)
  · rcases hidx with hnone | ⟨hsame, hg⟩
    · rw [hnone] at hi
      cases hi
    · rw [hg]
      exact hgen i (hsame ▸ hi)

theorem Inv.stay (h : Inv me s) {pc : Pc} {w : Bool} (hexp : s.client.exposed = true)
    (hsound : s.shm.magic = magicWord →
      Sound me { s with client := { s.client with pc := pc }, woken := w })
    (hreturned : pc ≠ .outside (some true)) :
    Inv me { s with client := { s.client with pc := pc }, woken := w } :=
  h.setClient hsound h.fresh (fun _ hfalse => by rw [hexp] at hfalse; cases hfalse)
    fun hpc => absurd hpc hreturned

theorem Inv.enter (h : Inv me s) {pc : Pc} {c : Client}
    (hexp : { s.client with pc := pc }.exposed = false) (hreturned : pc ≠ .outside (some true))
    (hc : s.client.enter pc = some c) :
    Inv me { s with client := c } := by
  unfold Client.enter at hc
  split at hc
  · cases hc
    exact h.calm hexp (Or.inr ⟨rfl, rfl⟩) fun heq => absurd heq hreturned
  · cases hc

theorem Inv.interrupt (h : Inv me s) {c : Client} (hc : s.client.interrupt = some c) :
    Inv me { s with client := c } := by
  unfold Client.interrupt at hc
  split at hc
  · rename_i current hpc
    cases hc
    refine h.stay (by rw [Client.exposed, hpc]) (fun hm => ?_) (by simp)
    have hsound := h.sound hm
    simp only [Sound, hpc] at hsound
    exact hsound
  · cases hc

theorem initDone_spec (who : Caller) (c : Client) :
    (c.initDone who).exposed = false ∧ (c.initDone who).taskIdx = c.taskIdx ∧
      (c.initDone who).shmGeneration = c.shmGeneration ∧
      (c.initDone who).pc ≠ .outside (some true) := by
  cases who with
  | start | restart =>
    cases hm : c.mapped <;> simp [Client.initDone, hm, Client.exposed]
  | app | wait => simp [Client.initDone, Client.exposed]

theorem Inv.initFailed (h : Inv me s) {c : Client} {w : Bool} (who : Caller)
    (hidx : c.taskIdx = s.client.taskIdx) (hgen : c.shmGeneration = s.client.shmGeneration) :
    Inv me { s with client := c.initDone who, woken := w } := by
  obtain ⟨hexp, hidx', hgen', hreturned⟩ := initDone_spec who c
  exact h.calm hexp (Or.inr ⟨hidx'.trans hidx, hgen'.trans hgen⟩) fun heq => absurd heq hreturned

theorem Inv.notFound (h : Inv me s) {w : Bool} (who : Caller) :
    Inv me { s with client := s.client.findDone who none, woken := w } := by
  refine h.setClient (fun _ => sound_of_not_exposed ?_) (fun _ i hi => ?_)
    (fun _ _ _ => ⟨?_, fun i hi => ?_⟩) fun hpc => ?_
  all_goals cases who <;> simp_all [Client.findDone, Client.exposed]

/-- A name that matches belongs to the client's task, as long as the magic word is there. -/
theorem Inv.owned_of_match (h : Inv me s) (hm : s.shm.magic = magicWord) {i : Fin maxTasks}
    (hname : strncmp 15 (s.shm.tasks i).name me.myName = true) : s.Owned me i := by
  intro hash hhash
  have hexcl := h.exclusive
  unfold settled at hexcl
  split at hexcl
  · rename_i rest mapping ht
    exact absurd hm (h.stage rest mapping ht).1
  · exact hexcl.owner hash i hhash hname

theorem Inv.found (h : Inv me s) {w : Bool} (who : Caller) {i : Fin maxTasks}
    (hexp : s.client.exposed = true)
    (hname : s.shm.magic = magicWord → strncmp 15 (s.shm.tasks i).name me.myName = true) :
    Inv me { s with client := s.client.findDone who (some i), woken := w } := by
  have howned : s.shm.magic = magicWord → ∀ j, some i = some j → s.Owned me j := by
    rintro hm _ ⟨⟩
    exact h.owned_of_match hm (hname hm)
  have hidx : (s.client.findDone who (some i)).taskIdx = some i := by cases who <;> rfl
  refine h.setClient (fun hm => ?_) (fun hm j hj _ => ?_)
    (fun _ hfalse => by rw [hexp] at hfalse; cases hfalse) fun hpc => ?_
  · cases who <;> exact howned hm
  · rw [hidx] at hj
    exact howned hm j hj
  · cases who <;> cases hpc

/-- **A step of the search** for the name. -/
theorem Inv.scan (h : Inv me s) {w : Bool} {who : Caller} {n : UInt32} {i k : ℕ}
    (hpc : s.client.pc = .find who (.scan n i k)) :
    Inv me { s with client := s.client.scan me s.shm who n i k, woken := w } := by
  have hexp : s.client.exposed = true := by rw [Client.exposed, hpc]; rfl
  have hsound := h.sound
  simp only [Sound, hpc] at hsound
  unfold Client.scan
  split
  · rename_i hi
    dsimp only
    split_ifs with hne hlast
    · refine h.stay hexp (fun hm => ?_) (by simp)
      exact fun _ j hj => absurd hj (Nat.not_lt_zero j)
    · -- all bytes up to the NUL, or all 15 of them
      refine h.found who hexp fun hm => strncmp_iff.2 fun j hj hnz => ?_
      rcases Nat.lt_trichotomy j k with hjk | rfl | hjk
      · exact hsound hm hi.1 j hjk
      · exact not_not.1 hne
      · rcases hlast with hzero | hlast
        · exact absurd hzero (hnz k hjk)
        · omega
    · refine h.stay hexp (fun hm => ?_) (by simp)
      intro hi' j hj
      rcases Nat.lt_succ_iff_lt_or_eq.1 hj with hj | rfl
      · exact hsound hm hi' j hj
      · exact not_not.1 hne
  · exact h.notFound who

theorem Inv.initGeneration (h : Inv me s) {w : Bool} {who : Caller}
    (hpc : s.client.pc = .initGeneration who) :
    Inv me { s with
      client := { s.client with shmGeneration := s.shm.generation }.initDone who, woken := w } := by
  obtain ⟨hcalm, hidx, hgen, hreturned⟩ :=
    initDone_spec who { s.client with shmGeneration := s.shm.generation }
  refine h.setClient (fun _ => sound_of_not_exposed hcalm) (fun hm i hi _ => ?_)
    (fun _ hexp _ => ⟨hcalm, fun i hi => ?_⟩) fun heq => absurd heq hreturned
  · have hsound := h.sound hm
    simp only [Sound, hpc] at hsound
    exact hsound i (hidx ▸ hi)
  · -- the client has no index that the update could have made wrong
    have hi : s.client.taskIdx = some i := hidx ▸ hi
    simp [Client.exposed, hpc, hi] at hexp

theorem Inv.checkGeneration (h : Inv me s) {c : Client} {w : Bool} {result : OpenResult}
    (hpc : s.client.pc = .checkGeneration) (hnext : s.client.next me s.shm result = some c) :
    Inv me { s with client := c, woken := w } := by
  simp only [Client.next, hpc] at hnext
  split_ifs at hnext with hgen hidx
  · cases hnext
    exact h.calm rfl (Or.inr ⟨rfl, rfl⟩) (by simp)
  · cases hnext
    obtain ⟨i, hi⟩ := Option.isSome_iff_exists.1 hidx
    refine h.setClient (fun hm => ?_) h.fresh
      (fun _ _ hne => absurd (not_not.1 hgen) (hne i hi)) (by simp)
    exact fun j hj => h.fresh hm j hj (not_not.1 hgen)
  · cases hnext
    exact h.calm rfl (Or.inr ⟨rfl, rfl⟩) (by simp)

theorem Inv.readCounter (h : Inv me s) {c : Client} {w : Bool} {result : OpenResult}
    (hok : Undisturbed me s (.client result)) (hpc : s.client.pc = .readCounter)
    (hnext : s.client.next me s.shm result = some c) :
    Inv me { s with client := c, woken := w } := by
  simp only [Client.next, hpc] at hnext
  obtain ⟨i, hi, rfl⟩ := Option.map_eq_some_iff.1 hnext
  refine h.stay (by rw [Client.exposed, hpc]) (fun hm => ?_) (by simp)
  have hsound := h.sound hm
  simp only [Sound, hpc] at hsound ⊢
  intro j hj
  cases hi.symm.trans hj
  exact ⟨hsound i hi, Or.inr ⟨rfl, hok hpc i hi⟩⟩

theorem Inv.futexWait (h : Inv me s) {c : Client} {result : OpenResult} {current : UInt32}
    (hpc : s.client.pc = .futexWait current) (hnext : s.client.next me s.shm result = some c) :
    Inv me { s with client := c } := by
  simp only [Client.next, hpc] at hnext
  obtain ⟨i, hi, rfl⟩ := Option.map_eq_some_iff.1 hnext
  have hexp : s.client.exposed = true := by rw [Client.exposed, hpc]
  have hsound := h.sound
  simp only [Sound, hpc] at hsound
  split_ifs with hne
  · refine h.stay hexp (fun hm => ?_) (by simp)
    rcases (hsound hm i hi).2 with hw | ⟨heq, -⟩
    · exact hw
    · exact absurd heq hne
  · exact h.stay hexp hsound (by simp)

/-- **The accesses of the client** keep the invariant. -/
theorem Inv.clientStep (h : Inv me s) {result : OpenResult}
    (hok : Undisturbed me s (.client result)) (hstep : s.clientStep me result = some s') :
    Inv me s' := by
  obtain ⟨c, hnext, rfl⟩ := Option.map_eq_some_iff.1 hstep
  cases hpc : s.client.pc with
  | outside r | blocked current => simp [Client.next, hpc] at hnext
  | openShm who =>
    cases result with
    | mapped =>
      simp only [Client.next, hpc, Option.some.injEq] at hnext
      subst hnext
      exact h.calm rfl (Or.inr ⟨rfl, rfl⟩) (by simp)
    | openFailed | mapFailed =>
      simp only [Client.next, hpc, Option.some.injEq] at hnext
      subst hnext
      exact h.initFailed who rfl rfl
  | find who pc =>
    cases pc with
    | magic =>
      simp only [Client.next, hpc] at hnext
      split_ifs at hnext with hm
      · cases hnext
        exact h.notFound who
      · cases hnext
        exact h.setClient (fun _ => trivial) h.fresh (fun hne => absurd (not_not.1 hm) hne)
          (by simp)
    | nTasks =>
      simp only [Client.next, hpc, Option.some.injEq] at hnext
      subst hnext
      refine h.stay (by rw [Client.exposed, hpc]; rfl) (fun hm => ?_) (by simp)
      exact fun _ j hj => absurd hj (Nat.not_lt_zero j)
    | scan n i k =>
      simp only [Client.next, hpc, Option.some.injEq] at hnext
      subst hnext
      exact h.scan hpc
  | initGeneration who =>
    simp only [Client.next, hpc, Option.some.injEq] at hnext
    subst hnext
    exact h.initGeneration hpc
  | checkMagic =>
    simp only [Client.next, hpc] at hnext
    split_ifs at hnext with hm
    · cases hnext
      exact h.calm rfl (Or.inl rfl) (by simp)
    · cases hnext
      exact h.calm rfl (Or.inr ⟨rfl, rfl⟩) (by simp)
  | recheckMagic =>
    simp only [Client.next, hpc] at hnext
    split_ifs at hnext with hm
    · cases hnext
      exact h.calm rfl (Or.inr ⟨rfl, rfl⟩) (by simp)
    · cases hnext
      exact h.calm rfl (Or.inr ⟨rfl, rfl⟩) (by simp)
  | checkGeneration => exact h.checkGeneration hpc hnext
  | reloadGeneration =>
    simp only [Client.next, hpc, Option.some.injEq] at hnext
    subst hnext
    exact h.calm rfl (Or.inl rfl) (by simp)
  | readCounter => exact h.readCounter hok hpc hnext
  | futexWait current =>
    simp only [reduceCtorEq, if_false]
    exact h.futexWait hpc hnext
  | checkShutdown =>
    simp only [Client.next, hpc] at hnext
    simp only [reduceCtorEq, if_false]
    split_ifs at hnext with hm
    · cases hnext
      exact h.calm rfl (Or.inl rfl) (by simp)
    · cases hnext
      have hsound := h.sound (not_not.1 hm)
      simp only [Sound, hpc] at hsound
      exact h.calm rfl (Or.inr ⟨rfl, rfl⟩) fun _ => hsound

/-- **Every step keeps the invariant.** -/
theorem Inv.next (h : Inv me s) {a : ReleaseAction} (hok : Undisturbed me s a)
    (hstep : s.next stdSort me a = some s') : Inv me s' := by
  cases a with
  | callInit =>
    obtain ⟨c, hc, rfl⟩ := Option.map_eq_some_iff.1 hstep
    exact h.enter rfl (by simp) hc
  | callWait =>
    obtain ⟨c, hc, rfl⟩ := Option.map_eq_some_iff.1 hstep
    exact h.enter (by split_ifs <;> rfl) (by split_ifs <;> simp) hc
  | client result => exact h.clientStep hok hstep
  | signal =>
    obtain ⟨c, hc, rfl⟩ := Option.map_eq_some_iff.1 hstep
    exact h.interrupt hc
  | setScheduleTable slots =>
    obtain ⟨hfree, hstep⟩ := Option.ite_none_right_eq_some.1 hstep
    cases hstep
    exact h.setScheduleTable hfree hok
  | wakeTask hash =>
    obtain ⟨hfree, hstep⟩ := Option.ite_none_right_eq_some.1 hstep
    cases hstep
    exact h.wakeTask hfree hash
  | timer => exact h.timerStep hok hstep

end ReleaseState

open ReleaseState Publisher

/-- **A task is released by its own slot**: in an undisturbed run, when `ttsched_wait_next_period`
has returned 0, `wake_task` has incremented the counter of the client's task since the client read
it. -/
theorem released_by_wakeTask (stdSort : StdSort) (me : Task) (s : ReleaseState)
    (h : (releaseMachine stdSort me).ReachableIf (Undisturbed me) s)
    (hreturned : s.client.pc = .outside (some true)) : s.woken = true := by
  have hinv : Inv me s := h.invariant
    (by rintro s ⟨shm, rfl⟩; exact Inv.of_init)
    fun s a s' hs hok hnext => hs.next hok hnext
  exact hinv.returned hreturned

/-! ### Runs -/

/-- The task of the runs below. -/
def taskX : Task := ⟨1, text "x"⟩

/-- A state before the first table. -/
def releaseStart : ReleaseState := ⟨(Publisher.new blankShm).shm, ∅, .free, .new, false⟩

/-- TimerMaster publishes a table with the task, in `n` accesses after the first one. -/
def publishX (n : ℕ) : List ReleaseAction :=
  .setScheduleTable [slotOf 1 (text "x")] :: List.replicate n .timer

/-- The client's first wait, up to the read of the counter. -/
def findX : List ReleaseAction := .callWait :: List.replicate 8 (.client .mapped)

/-- The read of the counter and `FUTEX_WAIT`. -/
def sleepX : List ReleaseAction := List.replicate 2 (.client .mapped)

/-- The client sleeps, a signal interrupts it, and `wake_task` wakes it up. -/
theorem released_by_wakeTask_once :
    ∃ s, (releaseMachine insertionStdSort taskX).ReachableIf (Undisturbed taskX) s ∧
      s.client.pc = .outside (some true) ∧ s.woken = true := by
  have hrun : ((releaseMachine insertionStdSort taskX).execIf
      (fun s a => decide (Undisturbed taskX s a)) releaseStart
      (publishX 84 ++ findX ++ sleepX ++ [.signal, .client .mapped, .wakeTask 1, .timer] ++
        [.client .mapped])).any (fun s => s.client.pc = .outside (some true)) = true := by
    decide +kernel
  obtain ⟨s, hs, hpc⟩ := (Option.any_eq_true _ _).1 hrun
  have hreach : (releaseMachine insertionStdSort taskX).ReachableIf (Undisturbed taskX) s :=
    ⟨_, ⟨blankShm, rfl⟩, Machine.leads_of_execIf (fun _ _ h => of_decide_eq_true h) hs⟩
  have hpc := of_decide_eq_true hpc
  exact ⟨s, hreach, hpc, released_by_wakeTask _ _ s hreach hpc⟩

/-- **A task that runs early**: a table is published while the client sleeps, and the client gets to
run when the magic word is back.  Or the client goes to sleep between the two accesses of a
`wake_task`. -/
theorem not_released_by_wakeTask :
    (∃ s, (releaseMachine insertionStdSort taskX).Reachable s ∧
      s.client.pc = .outside (some true) ∧ s.woken = false) ∧
    ((releaseMachine insertionStdSort taskX).exec releaseStart
      (publishX 84 ++ findX ++ [.wakeTask 1] ++ sleepX ++ [.timer, .client .mapped])).any
      (fun s => s.client.pc = .outside (some true) ∧ s.woken = false) = true := by
  refine ⟨?_, by decide +kernel⟩
  have hrun : ((releaseMachine insertionStdSort taskX).exec releaseStart
      (publishX 84 ++ findX ++ sleepX ++ publishX 83 ++ [.client .mapped])).any
      (fun s => s.client.pc = .outside (some true) ∧ s.woken = false) = true := by
    decide +kernel
  obtain ⟨s, hs, hP⟩ := (Option.any_eq_true _ _).1 hrun
  exact ⟨s, Machine.reachable_of_exec ⟨blankShm, rfl⟩ hs, of_decide_eq_true hP⟩

end Ttsched

end Timpani
