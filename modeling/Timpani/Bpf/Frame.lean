import Timpani.Bpf.Callbacks

/-!
# What the callbacks leave alone

Callbacks note wake-ups and runnable flags in the `TaskMeta` of a task; what the daemon registered
about it they only read.  The same goes for the slots and for the current slot of a CPU.
-/

namespace Timpani

/-- What the daemon registered about the task. -/
def TaskMeta.registration (m : TaskMeta) : Registration :=
  ⟨m.workloadIdHash, m.taskIdHash, m.assignedCpu, m.slotDurationUs, m.schedulingType, m.layer⟩

namespace BpfState

/-- What is registered about a process. -/
def registration (s : BpfState) (pid : UInt32) : Option Registration :=
  (s.taskMetaMap.lookup pid).map (·.registration)

/-- Nothing the daemon writes has changed, servers apart. -/
structure Frame (s s' : BpfState) : Prop where
  registration : ∀ pid, s'.registration pid = s.registration pid
  ttTableMap : s'.ttTableMap = s.ttTableMap
  currentSlotMap : s'.currentSlotMap = s.currentSlotMap

variable {s s' s'' : BpfState} {pid cpu : UInt32} {m : TaskMeta} {now : UInt64}

theorem Frame.refl (s : BpfState) : Frame s s := ⟨fun _ => rfl, rfl, rfl⟩

theorem Frame.trans (h : Frame s s') (h' : Frame s' s'') : Frame s s'' :=
  ⟨fun pid => (h'.registration pid).trans (h.registration pid), h'.ttTableMap.trans h.ttTableMap,
    h'.currentSlotMap.trans h.currentSlotMap⟩

theorem Frame.serves (h : Frame s s') (pid : UInt32) (key : UInt64) :
    s'.serves pid key = s.serves pid key := by
  have hserves : ∀ s : BpfState, s.serves pid key = (s.registration pid).any fun r =>
      r.schedulingType = .cbs && (r.workloadIdHash ^^^ r.taskIdHash : UInt64) = key := by
    intro s
    unfold BpfState.serves BpfState.registration
    cases s.taskMetaMap.lookup pid <;> rfl
  rw [hserves, hserves, h.registration]

theorem registration_of_modify {f : TaskMeta → TaskMeta}
    (h : s'.taskMetaMap = s.taskMetaMap.modify pid f)
    (hf : ∀ m, (f m).registration = m.registration) (pid' : UInt32) :
    s'.registration pid' = s.registration pid' := by
  unfold registration
  rw [h, BpfHash.lookup_modify]
  split_ifs with heq
  · subst heq
    cases s.taskMetaMap.lookup pid with
    | none => rfl
    | some m => exact congrArg some (hf m)
  · rfl

theorem frame_submitFault (e : FaultEvent) : Frame s (s.submitFault e) := ⟨fun _ => rfl, rfl, rfl⟩

theorem frame_selectCpu {prevCpu : UInt32} : Frame s (s.selectCpu pid prevCpu now).1 := by
  unfold selectCpu
  split
  · split
    · exact .refl s
    · exact ⟨registration_of_modify rfl fun _ => rfl, rfl, rfl⟩
  · exact .refl s

theorem frame_markTtRunnable : Frame s (s.markTtRunnable pid m cpu) := by
  unfold markTtRunnable
  split_ifs
  · exact ⟨fun _ => rfl, rfl, rfl⟩
  · exact ⟨registration_of_modify rfl fun _ => rfl, rfl, rfl⟩

theorem frame_markTtNotRunnable : Frame s (s.markTtNotRunnable pid m cpu) := by
  unfold markTtNotRunnable
  split_ifs
  · exact ⟨registration_of_modify rfl fun _ => rfl, rfl, rfl⟩
  · exact .refl s

theorem frame_enqueue : Frame s (s.enqueue pid now).1 := by
  unfold enqueue
  split
  · exact .refl s
  · split
    · split_ifs
      · exact frame_markTtRunnable
      · exact .refl s
    · split
      · dsimp only
        split_ifs <;> exact ⟨fun _ => rfl, rfl, rfl⟩
      · exact .refl s
    · exact .refl s

theorem frame_running : Frame s (s.running pid cpu now).1 := by
  unfold running
  split <;> exact ⟨fun _ => rfl, rfl, rfl⟩

theorem frame_dispatch : Frame s (s.dispatch cpu now).1 := by
  obtain ⟨_, _, _, h⟩ := s.exists_dispatch_eq cpu now
  rw [h]
  exact ⟨fun _ => rfl, rfl, rfl⟩

theorem frame_stoppingCbs : Frame s (s.stoppingCbs pid m cpu now) := by
  unfold stoppingCbs
  split
  · exact .refl s
  · dsimp only
    split_ifs
    · exact ⟨registration_of_modify rfl fun _ => rfl, rfl, rfl⟩
    · exact ⟨fun _ => rfl, rfl, rfl⟩
    · exact ⟨registration_of_modify rfl fun _ => rfl, rfl, rfl⟩
    · exact ⟨fun _ => rfl, rfl, rfl⟩
    · exact .refl s

theorem frame_stoppingTt : Frame s (s.stoppingTt pid m cpu now) := by
  unfold stoppingTt
  dsimp only
  split_ifs
  · exact frame_markTtNotRunnable.trans (frame_submitFault _)
  · exact frame_markTtNotRunnable

theorem frame_stopping {runnable : Bool} : Frame s (s.stopping pid cpu runnable now) := by
  unfold stopping
  split
  · exact .refl s
  · split
    · exact frame_stoppingCbs
    · split_ifs
      · exact .refl s
      · exact frame_stoppingTt
    · exact .refl s

end BpfState

end Timpani
