import Timpani.Node.Daemon

/-!
# Tables and STOPs as single writes

The programs do not wait for the daemon: while it applies a table or evicts a workload, the callbacks
see the maps after each of its writes.

* `MapWrite` : a write of the daemon to one of the maps;
* `Node.written_tableCallback`, `Node.written_stopWorkload` : the maps after a table or a STOP are
  the maps after some writes.
-/

namespace Timpani

/-! ### The writes of the daemon -/

/-- A write of the daemon to one of the maps. -/
inductive MapWrite where
  | updateTaskMeta (pid : UInt32) (r : Registration)
  | deleteTaskMeta (pid : UInt32)
  | updateTtSlot (key : TtSlotKey) (slot : TtSlotBpf)
  | deleteTtSlot (key : TtSlotKey)
  | updateCbsState (key : UInt64) (c : CbsState)
  | deleteCbsState (key : UInt64)

namespace MapWrite

/-- The maps after a write; one that fails changes nothing. -/
def apply (s : BpfState) : MapWrite → BpfState
  | .updateTaskMeta pid r => { s with taskMetaMap := (s.taskMetaMap.update pid r.toMeta).1 }
  | .deleteTaskMeta pid => { s with taskMetaMap := (s.taskMetaMap.delete pid).1 }
  | .updateTtSlot key slot => { s with ttTableMap := (s.ttTableMap.update key slot).1 }
  | .deleteTtSlot key => { s with ttTableMap := (s.ttTableMap.delete key).1 }
  | .updateCbsState key c => { s with cbsMap := (s.cbsMap.update key c).1 }
  | .deleteCbsState key => { s with cbsMap := (s.cbsMap.delete key).1 }

/-- The processes whose metadata is written. -/
def pids : MapWrite → Finset UInt32
  | .updateTaskMeta pid _ => {pid}
  | .deleteTaskMeta pid => {pid}
  | _ => ∅

end MapWrite

namespace BpfState

/-- The maps after some writes. -/
def Written (s s' : BpfState) : Prop := ∃ ws : List MapWrite, s' = ws.foldl MapWrite.apply s

variable {s s' s'' : BpfState}

theorem Written.refl (s : BpfState) : Written s s := ⟨[], rfl⟩

theorem Written.trans (h : Written s s') (h' : Written s' s'') : Written s s'' := by
  obtain ⟨ws, rfl⟩ := h
  obtain ⟨ws', rfl⟩ := h'
  exact ⟨ws ++ ws', by rw [List.foldl_append]⟩

theorem Written.of_write (w : MapWrite) : Written s (w.apply s) := ⟨[w], rfl⟩

end BpfState

/-! ### A table is applied by single writes -/

section TableCallback

open BpfState (Written)

variable {findPid : ℕ → Option UInt32} {clock : ℕ → UInt64}

namespace Applying

variable {a : Applying} {pid : Option UInt32} {now : UInt64}

theorem written_registerTt {slot : TtSlot} {layer : UInt8} :
    Written a.node.bpf (a.registerTt pid slot layer).node.bpf := by
  unfold registerTt
  split
  · exact .refl _
  · next pid =>
    have hwrite := Written.of_write (s := a.node.bpf) (.updateTaskMeta pid
      ⟨slot.workloadIdHash, slot.taskIdHash, slot.cpu, slot.durationUs, .tt, layer⟩)
    dsimp only
    split_ifs <;> exact hwrite

theorem written_writeTtSlot {slot : TtSlot} :
    Written a.node.bpf (a.writeTtSlot slot).node.bpf := by
  have hwrite := Written.of_write (s := a.node.bpf) (.updateTtSlot ⟨slot.cpu, a.slotIdx⟩
    ⟨slot.workloadIdHash, slot.taskIdHash, slot.offsetUs, slot.durationUs, slot.deadlineUs, slot.cpu⟩)
  unfold writeTtSlot
  dsimp only
  split_ifs <;> exact hwrite

theorem written_applyTt {slot : TtSlot} {layer : UInt8} :
    Written a.node.bpf (a.applyTt pid slot layer).node.bpf := by
  have htrack : ∀ a : Applying, (a.trackTt pid slot).node.bpf = a.node.bpf := by
    intro a
    unfold trackTt
    split <;> rfl
  unfold applyTt
  dsimp only
  rw [htrack]
  exact written_registerTt.trans written_writeTtSlot

theorem written_applyCbs {e : CbsConfig} {layer : UInt8} {cpu : UInt32} :
    Written a.node.bpf (a.applyCbs pid now e layer cpu).node.bpf := by
  unfold applyCbs
  split
  · exact .refl _
  · next pid =>
    have hmeta := Written.of_write (s := a.node.bpf) (.updateTaskMeta pid
      ⟨e.workloadIdHash, e.taskIdHash, cpu, 0, .cbs, layer⟩)
    have hserver := hmeta.trans (Written.of_write (.updateCbsState e.key (e.initial now)))
    dsimp only
    split_ifs
    · exact hserver
    · exact hserver
    · exact hmeta

theorem written_walk (items : List (Item × ℕ)) :
    Written a.node.bpf (walk findPid clock a items).node.bpf := by
  induction items generalizing a with
  | nil => exact .refl _
  | cons x items ih =>
    obtain ⟨item, i⟩ := x
    have hitem : Written a.node.bpf (a.applyItem (findPid i) (clock i) item).node.bpf := by
      cases item with
      | tt slot layer => exact written_applyTt
      | cbs e layer cpu => exact written_applyCbs
      | noCpu partitionId => exact .refl _
    exact hitem.trans ih

end Applying

theorem written_deleteTaskMetas (pids : List UInt32) (s : BpfState) : Written s
    { s with taskMetaMap := pids.foldl (fun m pid => (m.delete pid).1) s.taskMetaMap } := by
  induction pids generalizing s with
  | nil => exact .refl s
  | cons pid pids ih => exact (Written.of_write (.deleteTaskMeta pid)).trans (ih _)

theorem written_deleteTtSlots (keys : List TtSlotKey) (s : BpfState) : Written s
    { s with ttTableMap := keys.foldl (fun m k => (m.delete k).1) s.ttTableMap } := by
  induction keys generalizing s with
  | nil => exact .refl s
  | cons key keys ih => exact (Written.of_write (.deleteTtSlot key)).trans (ih _)

theorem written_deleteCbsStates (keys : List UInt64) (s : BpfState) : Written s
    { s with cbsMap := keys.foldl (fun m k => (m.delete k).1) s.cbsMap } := by
  induction keys generalizing s with
  | nil => exact .refl s
  | cons key keys ih => exact (Written.of_write (.deleteCbsState key)).trans (ih _)

theorem Node.written_evict {n : Node} {table : HierarchicalScheduleTable} :
    Written n.bpf (n.evict table).bpf :=
  ((written_deleteTaskMetas _ n.bpf).trans (written_deleteTtSlots _ _)).trans
    (written_deleteCbsStates _ _)

/-- A table application writes to the maps and does nothing else to them. -/
theorem Node.written_tableCallback (n : Node) (findPid : ℕ → Option UInt32) (clock : ℕ → UInt64)
    (table : HierarchicalScheduleTable) :
    Written n.bpf (n.tableCallback findPid clock table).1.bpf :=
  Node.written_evict.trans (Applying.written_walk _)

/-- So does a STOP. -/
theorem Node.written_stopWorkload (n : Node) (wid : Text) :
    Written n.bpf (n.stopWorkload wid).bpf :=
  ((written_deleteTaskMetas _ n.bpf).trans (written_deleteTtSlots _ _)).trans
    (written_deleteCbsStates _ _)

end TableCallback

end Timpani
