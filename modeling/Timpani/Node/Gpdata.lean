import Timpani.Bpf.Trace
import Timpani.Cpp.CString
import Std.Data.ExtTreeMap.Lemmas

/-!
# The plot data of a node

The events of the tracer carry times of the monotonic clock.  `GpdataWriter` writes them to a file, as
wall-clock times in microseconds; it measures the distance of the two clocks once, when it is started.
It prints to a stream with a buffer, so what reaches the file before the stream is closed, or after an
error, need not end where a line does.  A thread of the daemon takes the events from the ring buffer
and looks up the name of the task, while the daemon registers the processes of a new table and forgets
those of the old one.

* `GpdataWriter.accurate_toMicros` : the times in the file are those of the wall clock, up to half the
  time the best of twenty measurements took;
* `Plot.machine` : the tracer, the daemon and the thread that writes, in any order;
* `Plot.lines_are_stretches` : **the plot is sound**: the file is the beginning of lines for stretches
  for which a process had a CPU, each at most once and in order, under a name the process was
  registered with;
* `Plot.lines_are_log` : **the plot is exact**: if the tracer is used as it is meant to be, every event
  is polled while its process is registered, and the file can be written, the file and the buffer, and
  after `stop` the file, hold the lines of the beginning of the log.
-/

namespace Timpani

/-! ### The clocks -/

structure Timespec where
  tvSec : Int64
  tvNsec : Int64
  deriving DecidableEq, Repr

/-- `timespec_to_ns` -/
def timespecToNs (ts : Timespec) : UInt64 := ts.tvSec.toUInt64 * 1000000000 + ts.tvNsec.toUInt64

/-- What one round of the calibration reads: the wall clock, the monotonic clock, the wall clock. -/
structure ClockReading where
  t1 : Timespec
  t2 : Timespec
  t3 : Timespec
  deriving DecidableEq, Repr

namespace ClockReading

def delta (r : ClockReading) : UInt64 := timespecToNs r.t3 - timespecToNs r.t1

def midpoint (r : ClockReading) : UInt64 := (timespecToNs r.t1 + timespecToNs r.t3) / 2

/-- For how long the wall clock ran between its two readings, in nanoseconds. -/
def width (r : ClockReading) : ℕ := (timespecToNs r.t3).toNat - (timespecToNs r.t1).toNat

/-- The wall clock is ahead of the monotonic clock by `ahead` nanoseconds, and was when it was read. -/
structure Brackets (r : ClockReading) (ahead : ℕ) : Prop where
  before : (timespecToNs r.t1).toNat ≤ (timespecToNs r.t2).toNat + ahead
  after : (timespecToNs r.t2).toNat + ahead ≤ (timespecToNs r.t3).toNat
  range : (timespecToNs r.t3).toNat < 2 ^ 63
  width_le : r.width ≤ ahead

variable {r : ClockReading} {ahead : ℕ}

theorem Brackets.toNat_delta (h : r.Brackets ahead) : r.delta.toNat = r.width :=
  UInt64.toNat_sub_of_le _ _ (UInt64.le_iff_toNat_le.2 (h.before.trans h.after))

theorem Brackets.toNat_midpoint (h : r.Brackets ahead) :
    r.midpoint.toNat = ((timespecToNs r.t1).toNat + (timespecToNs r.t3).toNat) / 2 := by
  have hle := h.before.trans h.after
  have hlt := h.range
  rw [midpoint, UInt64.toNat_div, UInt64.toNat_add, Nat.mod_eq_of_lt (by omega)]
  rfl

end ClockReading

/-! ### The writer -/

structure GpdataWriter where
  nodeId : Text
  ktimeOffsetNs : UInt64
  started : Bool
  /-- The buffer of the stream; `none` is a null pointer. -/
  stream : Option Text
  /-- What was written to the file since it was opened. -/
  file : Text
  deriving DecidableEq, Repr

/-- How `fprintf` ends.  Of what is in the buffer and what is printed, some bytes reach the file.  The
others stay in the buffer; if the call fails, those after the first `kept` of them are lost. -/
inductive Printed where
  | done (reached : ℕ)
  | failed (reached kept : ℕ)
  deriving DecidableEq, Repr

def Printed.isDone : Printed → Bool
  | done _ => true
  | failed _ _ => false

/-- `%-16s`: blanks are added on the right. -/
def padRight (n : ℕ) (s : Text) : Text := s ++ List.replicate (n - s.length) 0x20

namespace GpdataWriter

/-- The constructor. -/
def new (nodeId : Text) : GpdataWriter :=
  ⟨if nodeId.isEmpty then text "node" else nodeId, 0, false, none, []⟩

/-- One round of the loop of `calibrate_ktime_offset_locked`, on the best difference so far and its
offset. -/
def calibrateRound (best : UInt64 × UInt64) (r : ClockReading) : UInt64 × UInt64 :=
  if r.delta < best.1 then (r.delta, r.midpoint - timespecToNs r.t2) else best

/-- `calibrate_ktime_offset_locked`, where all clocks can be read -/
def calibrateKtimeOffset (readings : Vector ClockReading 20) : UInt64 :=
  (readings.toList.foldl calibrateRound (18446744073709551615, 0)).2

/-- `start`; without readings, a clock could not be read. -/
def start (w : GpdataWriter) (readings : Option (Vector ClockReading 20)) : GpdataWriter × Bool :=
  if w.started then (w, true)
  else match readings with
    | none => (w, false)
    | some readings =>
      ({ w with ktimeOffsetNs := calibrateKtimeOffset readings, started := true }, true)

/-- `stop`; `flushed` bytes of the buffer reach the file when the stream is closed, and whether that
were all is not checked. -/
def stop (w : GpdataWriter) (flushed : ℕ) : GpdataWriter :=
  match w.stream with
  | none => { w with started := false }
  | some buffer =>
    { w with started := false, stream := none, file := w.file ++ buffer.take flushed }

def toRealtimeNs (w : GpdataWriter) (monotonicNs : UInt64) : UInt64 := w.ktimeOffsetNs + monotonicNs

def nsToUsRoundUp (ns : UInt64) : UInt64 := (ns + 999) / 1000

/-- How a time of the monotonic clock is written. -/
def toMicros (w : GpdataWriter) (monotonicNs : UInt64) : UInt64 :=
  nsToUsRoundUp (w.toRealtimeNs monotonicNs)

/-- The line for an event. -/
def line (w : GpdataWriter) (event : SchedstatEvent) (taskName : Text) : Text :=
  padRight 16 (cString taskName) ++ text " 0 0 " ++ cString w.nodeId ++ text "-C" ++
    intText event.cpu.toInt ++ text " 0 " ++ natText (w.toMicros event.tsWakeup).toNat ++ text " " ++
    natText (w.toMicros event.tsStart).toNat ++ text " " ++
    natText (w.toMicros event.tsStop).toNat ++ text " 0\n"

/-- `ensure_file_opened_locked`; a file that is opened is emptied. -/
def ensureFileOpened (w : GpdataWriter) (opened : Bool) : GpdataWriter × Bool :=
  if w.stream.isSome then (w, true)
  else if opened then ({ w with stream := some [], file := [] }, true)
  else (w, false)

/-- `fprintf` to the stream. -/
def fprintf (w : GpdataWriter) (s : Text) : Printed → GpdataWriter × Bool
  | .done reached =>
    ({ w with
      file := w.file ++ (w.stream.getD [] ++ s).take reached
      stream := some ((w.stream.getD [] ++ s).drop reached) }, true)
  | .failed reached kept =>
    ({ w with
      file := w.file ++ (w.stream.getD [] ++ s).take reached
      stream := some (((w.stream.getD [] ++ s).drop reached).take kept) }, false)

/-- `opened` says whether `fopen` succeeds, and `printed` what `fprintf` does. -/
def writeEvent (w : GpdataWriter) (event : SchedstatEvent) (taskName : Text) (opened : Bool)
    (printed : Printed) : GpdataWriter :=
  if !w.started then w
  else match w.ensureFileOpened opened with
    | (w, false) => { w with started := false }
    | (w, true) =>
      match w.fprintf (w.line event taskName) printed with
      | (w, true) => w
      | (w, false) => { w with started := false }

/-- What `main` does with an event. -/
def schedstatCallback (w : GpdataWriter) (pidToTask : Std.ExtTreeMap Int32 Text)
    (event : SchedstatEvent) (opened : Bool) (printed : Printed) : GpdataWriter :=
  let taskName := pidToTask.getD event.pid []
  if taskName.isEmpty then w else w.writeEvent event taskName opened printed

/-! ### The times -/

theorem foldl_calibrateRound (rs : List ClockReading) (best : UInt64 × UInt64) :
    let out := rs.foldl calibrateRound best
    (out = best ∨ ∃ r ∈ rs, out = (r.delta, r.midpoint - timespecToNs r.t2)) ∧ out.1 ≤ best.1 ∧
      ∀ r ∈ rs, out.1 ≤ r.delta := by
  induction rs generalizing best with
  | nil => exact ⟨Or.inl rfl, UInt64.le_refl _, fun _ h => absurd h List.not_mem_nil⟩
  | cons r rs ih =>
    obtain ⟨hout, hbest, hall⟩ := ih (calibrateRound best r)
    have hround : (calibrateRound best r).1 ≤ best.1 ∧ (calibrateRound best r).1 ≤ r.delta := by
      unfold calibrateRound
      split_ifs with hlt
      · exact ⟨UInt64.le_of_lt hlt, UInt64.le_refl _⟩
      · exact ⟨UInt64.le_refl _, UInt64.not_lt.1 hlt⟩
    refine ⟨?_, UInt64.le_trans hbest hround.1, List.forall_mem_cons.2
      ⟨UInt64.le_trans hbest hround.2, hall⟩⟩
    rcases hout with hout | ⟨r', hr', hout⟩
    · rw [List.foldl_cons, hout]
      unfold calibrateRound
      split_ifs
      · exact Or.inr ⟨r, List.mem_cons_self, rfl⟩
      · exact Or.inl rfl
    · exact Or.inr ⟨r', List.mem_cons_of_mem _ hr', hout⟩

variable {readings : Vector ClockReading 20} {ahead : ℕ}

theorem exists_calibrateKtimeOffset (h : ∀ r ∈ readings.toList, r.Brackets ahead) :
    ∃ r ∈ readings.toList, (∀ r' ∈ readings.toList, r.width ≤ r'.width) ∧
      calibrateKtimeOffset readings = r.midpoint - timespecToNs r.t2 := by
  obtain ⟨hout, -, hall⟩ := foldl_calibrateRound readings.toList (18446744073709551615, 0)
  rcases hout with hout | ⟨r, hr, hout⟩
  · -- no round takes as long as the bound the loop begins with
    have hpos : 0 < readings.toList.length := by simp
    have hmem := List.getElem_mem hpos
    have hle := UInt64.le_iff_toNat_le.1 (hall _ hmem)
    have hrange := (h _ hmem).range
    rw [hout, (h _ hmem).toNat_delta, ClockReading.width] at hle
    have hmax : 18446744073709551615 ≤ _ := hle
    omega
  · refine ⟨r, hr, fun r' hr' => ?_, congrArg Prod.snd hout⟩
    have hle := UInt64.le_iff_toNat_le.1 (hall r' hr')
    rwa [hout, (h r hr).toNat_delta, (h r' hr').toNat_delta] at hle

/-- `micros` is the wall-clock time, rounded up, up to half of a measurement that took `width`. -/
def Accurate (ahead width : ℕ) (monotonicNs micros : UInt64) : Prop :=
  monotonicNs.toNat + ahead ≤ 1000 * micros.toNat + (width + 1) / 2 ∧
    1000 * micros.toNat ≤ monotonicNs.toNat + ahead + (width + 1) / 2 + 999

theorem Accurate.mono {width width' : ℕ} {m us : UInt64} (h : Accurate ahead width m us)
    (hle : width ≤ width') : Accurate ahead width' m us := by
  have hhalf : (width + 1) / 2 ≤ (width' + 1) / 2 := by gcongr
  obtain ⟨hlow, hhigh⟩ := h
  exact ⟨hlow.trans (by gcongr), hhigh.trans (by gcongr)⟩

/-- A time that is converted with the offset of one round.  The difference is taken modulo 2 ^ 64, and
the sum is back in range. -/
theorem toNat_nsToUsRoundUp {r : ClockReading} {m : UInt64} (h : r.Brackets ahead)
    (hm : m.toNat + ahead < 2 ^ 63) :
    (nsToUsRoundUp (r.midpoint - timespecToNs r.t2 + m)).toNat =
      (r.midpoint.toNat + m.toNat - (timespecToNs r.t2).toNat + 999) / 1000 := by
  have hmid := h.toNat_midpoint
  have hbefore := h.before
  have hafter := h.after
  have hrange := h.range
  have hwidth := h.width_le
  have hm' := m.toNat_lt
  have ht2 := (timespecToNs r.t2).toNat_lt
  unfold ClockReading.width at hwidth
  have hsum : (r.midpoint - timespecToNs r.t2 + m).toNat =
      r.midpoint.toNat + m.toNat - (timespecToNs r.t2).toNat := by
    rw [UInt64.toNat_add, UInt64.toNat_sub]
    omega
  rw [nsToUsRoundUp, UInt64.toNat_div, UInt64.toNat_add, hsum]
  show (_ + 999) % 2 ^ 64 / 1000 = _
  rw [Nat.mod_eq_of_lt (by omega)]

theorem accurate_of_brackets {r : ClockReading} {m : UInt64} (h : r.Brackets ahead)
    (hm : m.toNat + ahead < 2 ^ 63) :
    Accurate ahead r.width m (nsToUsRoundUp (r.midpoint - timespecToNs r.t2 + m)) := by
  have hmid := h.toNat_midpoint
  have hbefore := h.before
  have hafter := h.after
  have hwidth := h.width_le
  unfold Accurate
  rw [toNat_nsToUsRoundUp h hm]
  unfold ClockReading.width at *
  omega

/-- **The times are accurate.**  With the offset of `start`, a time is written as the wall-clock time,
up to half the time of any round of the calibration. -/
theorem accurate_toMicros {w : GpdataWriter} (hw : w.ktimeOffsetNs = calibrateKtimeOffset readings)
    (h : ∀ r ∈ readings.toList, r.Brackets ahead) {m : UInt64} (hm : m.toNat + ahead < 2 ^ 63) :
    ∀ r ∈ readings.toList, Accurate ahead r.width m (w.toMicros m) := by
  obtain ⟨best, hbest, hleast, heq⟩ := exists_calibrateKtimeOffset h
  intro r hr
  rw [toMicros, toRealtimeNs, hw, heq]
  exact (accurate_of_brackets (h best hbest) hm).mono (hleast r hr)

/-! ### What is written -/

variable {w : GpdataWriter}

/-- The lines for some events. -/
def lines (w : GpdataWriter) (rows : List (SchedstatEvent × Text)) : Text :=
  (rows.map fun row => w.line row.1 row.2).flatten

/-- What was printed and not lost. -/
def sent (w : GpdataWriter) : Text := w.file ++ w.stream.getD []

/-- Nothing was written before the file is opened. -/
def Fresh (w : GpdataWriter) : Prop := w.started = true → w.stream = none → w.file = []

theorem lines_append (w : GpdataWriter) (rows : List (SchedstatEvent × Text))
    (row : SchedstatEvent × Text) : w.lines (rows ++ [row]) = w.lines rows ++ w.line row.1 row.2 := by
  simp [lines]

theorem lines_congr {w' : GpdataWriter} (hid : w'.nodeId = w.nodeId)
    (hoffset : w'.ktimeOffsetNs = w.ktimeOffsetNs) : w'.lines = w.lines := by
  funext rows
  simp only [lines, line, toMicros, toRealtimeNs, hid, hoffset]

theorem file_prefix_sent (w : GpdataWriter) : w.file <+: w.sent := List.prefix_append _ _

/-- What is printed follows what was printed before; if the call fails, only a beginning may. -/
theorem sent_fprintf (w : GpdataWriter) (s : Text) (printed : Printed) :
    (w.fprintf s printed).1.sent <+: w.sent ++ s ∧
      ((w.fprintf s printed).2 = true → (w.fprintf s printed).1.sent = w.sent ++ s) := by
  cases printed with
  | done reached =>
    have heq : (w.fprintf s (.done reached)).1.sent = w.sent ++ s := by
      simp [fprintf, sent, List.append_assoc]
    exact ⟨heq ▸ List.prefix_refl _, fun _ => heq⟩
  | failed reached kept =>
    refine ⟨?_, fun h => absurd h Bool.false_ne_true⟩
    have hpending : (w.stream.getD [] ++ s).take reached ++
        ((w.stream.getD [] ++ s).drop reached).take kept <+: w.stream.getD [] ++ s := by
      conv_rhs => rw [← List.take_append_drop reached (w.stream.getD [] ++ s)]
      exact (List.prefix_append_right_inj _).2 (List.take_prefix _ _)
    simp only [fprintf, sent, Option.getD_some, List.append_assoc]
    exact (List.prefix_append_right_inj _).2 hpending

@[simp] theorem started_stop (w : GpdataWriter) (flushed : ℕ) :
    (w.stop flushed).started = false := by
  unfold stop
  cases w.stream <;> rfl

@[simp] theorem nodeId_stop (w : GpdataWriter) (flushed : ℕ) :
    (w.stop flushed).nodeId = w.nodeId := by
  unfold stop
  cases w.stream <;> rfl

@[simp] theorem ktimeOffsetNs_stop (w : GpdataWriter) (flushed : ℕ) :
    (w.stop flushed).ktimeOffsetNs = w.ktimeOffsetNs := by
  unfold stop
  cases w.stream <;> rfl

theorem sent_stop (w : GpdataWriter) (flushed : ℕ) : (w.stop flushed).sent <+: w.sent := by
  unfold stop
  cases hstream : w.stream with
  | none => simp [sent, hstream]
  | some buffer =>
    simp only [sent, hstream, Option.getD_some, Option.getD_none, List.append_nil]
    exact (List.prefix_append_right_inj _).2 (List.take_prefix _ _)

/-- The writer prints the line of an event. -/
structure Writes (w : GpdataWriter) (event : SchedstatEvent) (taskName : Text) (w' : GpdataWriter) :
    Prop where
  started : w.started = true
  sent : w'.sent <+: w.sent ++ w.line event taskName
  eq_of_started : w'.started = true → w'.sent = w.sent ++ w.line event taskName

theorem ensureFileOpened_spec (h : w.Fresh) (hstarted : w.started = true) (opened : Bool) :
    (w.ensureFileOpened opened).1.nodeId = w.nodeId ∧
      (w.ensureFileOpened opened).1.ktimeOffsetNs = w.ktimeOffsetNs ∧
      (w.ensureFileOpened opened).1.sent = w.sent := by
  unfold ensureFileOpened
  cases hstream : w.stream with
  | some buffer => exact ⟨rfl, rfl, rfl⟩
  | none =>
    have hfile := h hstarted hstream
    cases opened <;> simp [sent, hstream, hfile]

theorem writeEvent_spec (h : w.Fresh) (event : SchedstatEvent) (taskName : Text) (opened : Bool)
    (printed : Printed) :
    let w' := w.writeEvent event taskName opened printed
    w'.Fresh ∧ w'.nodeId = w.nodeId ∧ w'.ktimeOffsetNs = w.ktimeOffsetNs ∧
      (w'.sent = w.sent ∧ w'.started = false ∨ Writes w event taskName w') := by
  unfold writeEvent
  by_cases hstarted : w.started = true
  · obtain ⟨hid, hoffset, hsent⟩ := ensureFileOpened_spec h hstarted opened
    have hline : (w.ensureFileOpened opened).1.line event taskName = w.line event taskName := by
      simp only [line, toMicros, toRealtimeNs, hid, hoffset]
    have hprinted := sent_fprintf (w.ensureFileOpened opened).1 (w.line event taskName) printed
    rw [hsent] at hprinted
    simp only [hstarted, Bool.not_true, Bool.false_eq_true, if_false]
    generalize w.ensureFileOpened opened = out at *
    obtain ⟨w₁, ok⟩ := out
    cases ok with
    | false =>
      exact ⟨fun hs => absurd hs Bool.false_ne_true, hid, hoffset, Or.inl ⟨hsent, rfl⟩⟩
    | true =>
      dsimp only at hline ⊢
      rw [hline]
      cases printed with
      | done reached =>
        exact ⟨fun _ hnone => absurd hnone (by simp [fprintf]), hid, hoffset,
          Or.inr ⟨hstarted, hprinted.1, fun _ => hprinted.2 rfl⟩⟩
      | failed reached kept =>
        exact ⟨fun hs => absurd hs Bool.false_ne_true, hid, hoffset,
          Or.inr ⟨hstarted, hprinted.1, fun hs => absurd hs Bool.false_ne_true⟩⟩
  · simp [hstarted, h]

theorem started_writeEvent (hstarted : w.started = true) (event : SchedstatEvent) (taskName : Text)
    {printed : Printed} (hdone : printed.isDone = true) :
    (w.writeEvent event taskName true printed).started = true := by
  cases printed with
  | failed => cases hdone
  | done reached =>
    unfold writeEvent ensureFileOpened
    cases hstream : w.stream <;> simp [hstarted, fprintf]

theorem stop_eq {flushed : ℕ} (hflushed : (w.stream.getD []).length ≤ flushed) :
    w.stop flushed = { w with started := false, stream := none, file := w.sent } := by
  unfold stop sent
  cases hstream : w.stream with
  | none => simp
  | some buffer =>
    have hlength : buffer.length ≤ flushed := by rwa [hstream] at hflushed
    simp [List.take_of_length_le hlength]

end GpdataWriter

/-! ### The daemon and the thread that writes -/

/-- The tracer, the writer, and the names of the processes. -/
structure Plot where
  traced : Traced
  writer : GpdataWriter
  pidToTask : Std.ExtTreeMap Int32 Text
  /-- How many events were taken from the ring buffer. -/
  consumed : ℕ
  /-- The processes that ever were registered, and the names. -/
  registered : List (Int32 × Text)

namespace Plot

inductive Action where
  | kernel (a : Traced.Action)
  | register (pid : Int32) (taskName : Text)
  | clear
  | poll (opened : Bool) (printed : Printed)
  | stop (flushed : ℕ)

/-- The next event in the ring buffer. -/
def pending (x : Plot) : Option SchedstatEvent := x.traced.tracer.buffer[x.consumed]?

/-- The daemon of a node.  The names are forgotten when a new table comes, and a process is registered
after it was added to the filter; the events are polled whenever. -/
def machine (nodeId : Text) (readings : Vector ClockReading 20) : Machine Plot Action where
  init x := Traced.machine.init x.traced ∧
    x.writer = ((GpdataWriter.new nodeId).start (some readings)).1 ∧ x.pidToTask = ∅ ∧
    x.consumed = 0 ∧ x.registered = []
  next x
    | .kernel a => (Traced.machine.next x.traced a).map fun traced => { x with traced }
    | .register pid taskName => some { x with
        pidToTask := x.pidToTask.insert pid taskName
        registered := x.registered ++ [(pid, taskName)] }
    | .clear => some { x with pidToTask := ∅ }
    | .poll opened printed => x.pending.map fun event => { x with
        writer := x.writer.schedstatCallback x.pidToTask event opened printed
        consumed := x.consumed + 1 }
    | .stop flushed => some { x with writer := x.writer.stop flushed }

/-- The lines of the rows were printed, under names that were registered; at the end some may be
lost, but not as long as the writer goes on. -/
structure Written (x : Plot) (rows : List (SchedstatEvent × Text)) : Prop where
  sent : x.writer.sent <+: x.writer.lines rows
  eq_of_started : x.writer.started = true → x.writer.sent = x.writer.lines rows
  registered : ∀ row ∈ rows, (row.1.pid, row.2) ∈ x.registered

variable {nodeId : Text} {readings : Vector ClockReading 20} {x x' : Plot}

/-- What holds whether or not all goes well. -/
structure Frame (readings : Vector ClockReading 20) (x : Plot) : Prop where
  offset : x.writer.ktimeOffsetNs = GpdataWriter.calibrateKtimeOffset readings
  fresh : x.writer.Fresh
  consumed_le : x.consumed ≤ x.traced.tracer.buffer.length
  named : ∀ pid, x.pidToTask.getD pid [] ≠ [] → (pid, x.pidToTask.getD pid []) ∈ x.registered

theorem frame_of_init (h : (machine nodeId readings).init x) : Frame readings x := by
  obtain ⟨-, hwriter, hnames, hconsumed, -⟩ := h
  refine ⟨?_, ?_, ?_, fun pid hpid => ?_⟩
  · rw [hwriter]
    rfl
  · rw [hwriter]
    exact fun _ _ => rfl
  · rw [hconsumed]
    exact Nat.zero_le _
  · rw [hnames, Std.ExtTreeMap.getD_empty] at hpid
    exact absurd rfl hpid

theorem exists_buffer_append {t t' : Traced} {a : Traced.Action}
    (h : Traced.machine.next t a = some t') :
    ∃ more, t'.tracer.buffer = t.tracer.buffer ++ more := by
  cases a with
  | waking pid now =>
    obtain ⟨-, heq⟩ := Option.ite_none_right_eq_some.1 h
    cases heq
    exact ⟨[], by rw [Traced.tracer_waken, Schedstat.buffer_schedWaking, List.append_nil]⟩
  | switch cpu next preempt prevState room now =>
    obtain ⟨-, heq⟩ := Option.ite_none_right_eq_some.1 h
    cases heq
    exact ⟨_, by rw [Traced.tracer_switch, Schedstat.buffer_schedSwitch]⟩
  | addPid pid =>
    cases h
    refine ⟨[], ?_⟩
    dsimp only [Schedstat.addPid]
    split_ifs <;> exact (List.append_nil _).symm
  | removePid pid =>
    cases h
    refine ⟨[], ?_⟩
    dsimp only [Schedstat.removePid]
    split_ifs <;> exact (List.append_nil _).symm

theorem take_append_of_le {t t' : Traced} {a : Traced.Action} {n : ℕ}
    (h : Traced.machine.next t a = some t') (hn : n ≤ t.tracer.buffer.length) :
    n ≤ t'.tracer.buffer.length ∧ t'.tracer.buffer.take n = t.tracer.buffer.take n := by
  obtain ⟨more, heq⟩ := exists_buffer_append h
  rw [heq, List.length_append]
  exact ⟨hn.trans (Nat.le_add_right _ _), List.take_append_of_le_length hn⟩

theorem consumed_lt {event : SchedstatEvent} (h : x.pending = some event) :
    x.consumed < x.traced.tracer.buffer.length :=
  (List.getElem?_eq_some_iff.1 h).1

theorem take_succ_consumed {event : SchedstatEvent} (h : x.pending = some event) :
    x.traced.tracer.buffer.take (x.consumed + 1) =
      x.traced.tracer.buffer.take x.consumed ++ [event] := by
  rw [List.take_add_one]
  exact congrArg _ (congrArg Option.toList h)

theorem schedstatCallback_spec (h : Frame readings x) (event : SchedstatEvent) (opened : Bool)
    (printed : Printed) :
    let w := x.writer.schedstatCallback x.pidToTask event opened printed
    w.Fresh ∧ w.nodeId = x.writer.nodeId ∧ w.ktimeOffsetNs = x.writer.ktimeOffsetNs ∧
      (w.sent = x.writer.sent ∧ (w.started = true → x.writer.started = true) ∨
        (event.pid, x.pidToTask.getD event.pid []) ∈ x.registered ∧
          x.writer.Writes event (x.pidToTask.getD event.pid []) w) := by
  dsimp only [GpdataWriter.schedstatCallback]
  split_ifs with hempty
  · exact ⟨h.fresh, rfl, rfl, Or.inl ⟨rfl, id⟩⟩
  · obtain ⟨hfresh, hid, hoffset, hsent⟩ := GpdataWriter.writeEvent_spec h.fresh event
      (x.pidToTask.getD event.pid []) opened printed
    have hname : x.pidToTask.getD event.pid [] ≠ [] := fun hnil => hempty (by rw [hnil]; rfl)
    exact ⟨hfresh, hid, hoffset, hsent.imp
      (fun ⟨hsame, hstopped⟩ => ⟨hsame, fun hs => Bool.noConfusion (hstopped.symm.trans hs)⟩)
      fun hw => ⟨h.named _ hname, hw⟩⟩

theorem Frame.next {a : Action} (h : Frame readings x)
    (hn : (machine nodeId readings).next x a = some x') : Frame readings x' := by
  cases a with
  | kernel a =>
    obtain ⟨traced, ht, rfl⟩ := Option.map_eq_some_iff.1 hn
    exact ⟨h.offset, h.fresh, (take_append_of_le ht h.consumed_le).1, h.named⟩
  | register pid taskName =>
    cases hn
    refine ⟨h.offset, h.fresh, h.consumed_le, fun p hp => ?_⟩
    dsimp only at hp ⊢
    rw [Std.ExtTreeMap.getD_insert] at hp ⊢
    split_ifs at hp ⊢ with heq
    · rw [Std.LawfulEqOrd.compare_eq_iff_eq.1 heq]
      exact List.mem_append_right _ List.mem_cons_self
    · exact List.mem_append_left _ (h.named p hp)
  | clear =>
    cases hn
    refine ⟨h.offset, h.fresh, h.consumed_le, fun p hp => ?_⟩
    rw [Std.ExtTreeMap.getD_empty] at hp
    exact absurd rfl hp
  | poll opened printed =>
    obtain ⟨event, hevent, rfl⟩ := Option.map_eq_some_iff.1 hn
    obtain ⟨hfresh, -, hoffset, -⟩ := schedstatCallback_spec h event opened printed
    exact ⟨hoffset.trans h.offset, hfresh, consumed_lt hevent, h.named⟩
  | stop flushed =>
    cases hn
    exact ⟨(GpdataWriter.ktimeOffsetNs_stop _ _).trans h.offset,
      fun hs => absurd hs (by simp), h.consumed_le, h.named⟩

theorem Written.of_sent {rows : List (SchedstatEvent × Text)} (h : x.Written rows)
    (hid : x'.writer.nodeId = x.writer.nodeId)
    (hoffset : x'.writer.ktimeOffsetNs = x.writer.ktimeOffsetNs)
    (hsent : x'.writer.sent <+: x.writer.sent)
    (hstarted : x'.writer.started = true → x'.writer.sent = x.writer.sent ∧ x.writer.started = true)
    (hreg : x.registered ⊆ x'.registered) : x'.Written rows := by
  have hlines := GpdataWriter.lines_congr hid hoffset
  refine ⟨hlines ▸ hsent.trans h.sent, fun hs => ?_, fun row hrow => hreg (h.registered row hrow)⟩
  rw [(hstarted hs).1, h.eq_of_started (hstarted hs).2, hlines]

theorem Written.append {rows : List (SchedstatEvent × Text)} (h : x.Written rows)
    (hid : x'.writer.nodeId = x.writer.nodeId)
    (hoffset : x'.writer.ktimeOffsetNs = x.writer.ktimeOffsetNs) {row : SchedstatEvent × Text}
    (hwrites : x.writer.Writes row.1 row.2 x'.writer)
    (hrow : (row.1.pid, row.2) ∈ x.registered) (hreg : x'.registered = x.registered) :
    x'.Written (rows ++ [row]) := by
  have hlines : x'.writer.lines (rows ++ [row]) = x.writer.sent ++ x.writer.line row.1 row.2 := by
    rw [GpdataWriter.lines_congr hid hoffset, GpdataWriter.lines_append,
      h.eq_of_started hwrites.started]
  refine ⟨hlines ▸ hwrites.sent, fun hs => (hwrites.eq_of_started hs).trans hlines.symm,
    fun row' hrow' => ?_⟩
  rw [hreg]
  rcases List.mem_append.1 hrow' with hold | hnew
  · exact h.registered row' hold
  · rwa [List.mem_singleton.1 hnew]

theorem Written.stop {rows : List (SchedstatEvent × Text)} (h : x.Written rows) (flushed : ℕ) :
    Written { x with writer := x.writer.stop flushed } rows :=
  h.of_sent (GpdataWriter.nodeId_stop _ _) (GpdataWriter.ktimeOffsetNs_stop _ _)
    (GpdataWriter.sent_stop _ _) (fun hs => absurd hs (by simp)) fun _ => id

/-! ### Soundness -/

structure Sound (readings : Vector ClockReading 20) (x : Plot) : Prop where
  frame : Frame readings x
  traced : x.traced.Sound
  written : ∃ rows, x.Written rows ∧
    (rows.map Prod.fst).Sublist (x.traced.tracer.buffer.take x.consumed)

theorem written_of_init (h : (machine nodeId readings).init x) : x.Written [] := by
  obtain ⟨-, hwriter, -⟩ := h
  have hsent : x.writer.sent = x.writer.lines [] := by
    rw [hwriter]
    rfl
  exact ⟨hsent ▸ List.prefix_refl _, fun _ => hsent, fun _ hrow => absurd hrow List.not_mem_nil⟩

theorem sound_of_init (h : (machine nodeId readings).init x) : Sound readings x :=
  ⟨frame_of_init h, Traced.sound_of_init h.1, [], written_of_init h, List.nil_sublist _⟩

theorem Sound.next {a : Action} (h : Sound readings x)
    (hn : (machine nodeId readings).next x a = some x') : Sound readings x' := by
  have hframe := h.frame.next hn
  obtain ⟨rows, hrows, hsub⟩ := h.written
  cases a with
  | kernel a =>
    obtain ⟨traced, ht, rfl⟩ := Option.map_eq_some_iff.1 hn
    refine ⟨hframe, h.traced.of_next ht, rows, ⟨hrows.sent, hrows.eq_of_started, hrows.registered⟩, ?_⟩
    rwa [(take_append_of_le ht h.frame.consumed_le).2]
  | register pid taskName =>
    cases hn
    exact ⟨hframe, h.traced, rows, hrows.of_sent rfl rfl (List.prefix_refl _) (fun hs => ⟨rfl, hs⟩)
      (List.subset_append_left _ _), hsub⟩
  | clear =>
    cases hn
    exact ⟨hframe, h.traced, rows, ⟨hrows.sent, hrows.eq_of_started, hrows.registered⟩, hsub⟩
  | poll opened printed =>
    obtain ⟨event, hevent, rfl⟩ := Option.map_eq_some_iff.1 hn
    obtain ⟨-, hid, hoffset, hsent⟩ := schedstatCallback_spec h.frame event opened printed
    rcases hsent with ⟨hsent, hstarted⟩ | ⟨hreg, hwrites⟩
    · refine ⟨hframe, h.traced, rows, hrows.of_sent hid hoffset (hsent ▸ List.prefix_refl _)
        (fun hs => ⟨hsent, hstarted hs⟩) fun _ => id, ?_⟩
      exact hsub.trans ((take_succ_consumed hevent).symm ▸ List.sublist_append_left _ _)
    · refine ⟨hframe, h.traced, rows ++ [(event, x.pidToTask.getD event.pid [])],
        hrows.append hid hoffset hwrites hreg rfl, ?_⟩
      rw [List.map_append]
      exact (take_succ_consumed hevent).symm ▸ hsub.append (List.Sublist.refl _)
  | stop flushed =>
    cases hn
    exact ⟨hframe, h.traced, rows, hrows.stop flushed, hsub⟩

theorem sound_of_run (h : (machine nodeId readings).Reachable x) : Sound readings x :=
  h.invariant (fun _ hx => sound_of_init hx) fun _ _ _ hs _ hn => hs.next hn

theorem Sound.exists_rows (h : Sound readings x) : ∃ rows : List (SchedstatEvent × Text),
    x.writer.file <+: x.writer.lines rows ∧
    (rows.map (·.1.stretch)).Sublist (x.traced.log.map (·.1.stretch)) ∧
    ∀ row ∈ rows, (row.1.pid, row.2) ∈ x.registered ∧
      (row.1.pid, row.1.tsWakeup) ∈ x.traced.wakings ∧ row.1.tsWakeup ≤ row.1.tsStart := by
  obtain ⟨rows, hrows, hsub⟩ := h.written
  have hbuffer : (rows.map Prod.fst).Sublist x.traced.tracer.buffer :=
    hsub.trans (List.take_sublist _ _)
  refine ⟨rows, x.writer.file_prefix_sent.trans hrows.sent, ?_,
    fun row hrow => ⟨hrows.registered row hrow, ?_⟩⟩
  · have hstretches := (hbuffer.map SchedstatEvent.stretch).trans h.traced.events
    rwa [List.map_map] at hstretches
  · exact h.traced.times _ (hbuffer.subset (List.mem_map_of_mem hrow))

/-- **The plot is sound.**  Whatever the order in which processes run, events are polled, and tables
come, and whatever goes wrong with the file: it is the beginning of lines for stretches for which a
process had a CPU, each at most once and in order, under a name the process was registered with.  If
the clocks were read as they should be, the times are those of the wall clock, up to half the time of
the best measurement. -/
theorem lines_are_stretches (h : (machine nodeId readings).Reachable x) :
    (∃ rows : List (SchedstatEvent × Text),
      x.writer.file <+: x.writer.lines rows ∧
      (rows.map (·.1.stretch)).Sublist (x.traced.log.map (·.1.stretch)) ∧
      ∀ row ∈ rows, (row.1.pid, row.2) ∈ x.registered ∧
        (row.1.pid, row.1.tsWakeup) ∈ x.traced.wakings ∧ row.1.tsWakeup ≤ row.1.tsStart) ∧
    ∀ ahead, (∀ r ∈ readings.toList, r.Brackets ahead) → ∀ m : UInt64, m.toNat + ahead < 2 ^ 63 →
      ∀ r ∈ readings.toList, GpdataWriter.Accurate ahead r.width m (x.writer.toMicros m) := by
  have hsound := sound_of_run h
  exact ⟨hsound.exists_rows,
    fun _ hclock _ hm => GpdataWriter.accurate_toMicros hsound.frame.offset hclock hm⟩

/-- Every round takes 100 ns, and the wall clock is ahead by some 54 years. -/
def calibration : Vector ClockReading 20 :=
  .replicate 20 ⟨⟨1700000000, 0⟩, ⟨100, 50⟩, ⟨1700000000, 100⟩⟩

theorem brackets_calibration :
    ∀ r ∈ calibration.toList, r.Brackets 1699999900000000000 := by
  intro r hr
  rw [calibration, Vector.toList_replicate] at hr
  rw [List.eq_of_mem_replicate hr]
  exact ⟨by decide, by decide, by decide, by decide⟩

/-- The writer is started when the tracer is attached. -/
def begun : Plot :=
  ⟨Traced.attached, ((GpdataWriter.new (text "n1")).start (some calibration)).1, ∅, 0, []⟩

theorem init_begun : (machine (text "n1") calibration).init begun :=
  ⟨Traced.init_attached, rfl, rfl, rfl, rfl⟩

/-- Process 7 runs twice; the first event is polled at once. -/
def twoStretches : List Action :=
  [.kernel (.addPid 7), .register 7 (text "brake"), .kernel (.waking 7 10000),
    .kernel (.switch 0 7 false 0 true 12000), .kernel (.switch 0 0 false 1 true 20000),
    .poll true (.done 0), .kernel (.waking 7 30000), .kernel (.switch 1 7 false 0 true 31001),
    .kernel (.switch 1 0 false 1 true 40000)]

/-- A new table comes before the second event is polled: the event gets no line.  The flush fails after
50 bytes. -/
theorem lines_are_stretches_cleared :
    ∃ x, (machine (text "n1") calibration).Reachable x ∧ x.traced.log.length = 2 ∧
      x.writer.file = text "brake            0 0 n1-C0 0 1699999900000010 1699" ∧
      GpdataWriter.Accurate 1699999900000000000 100 12345 (x.writer.toMicros 12345) := by
  have heval : ((machine (text "n1") calibration).exec begun
      (twoStretches ++ [.clear, .poll true (.done 0), .stop 50])).any (fun x => decide (
        x.traced.log.length = 2 ∧
        x.writer.file = text "brake            0 0 n1-C0 0 1699999900000010 1699")) = true := by
    decide +kernel
  obtain ⟨x, hx, hall⟩ := (Option.any_eq_true _ _).1 heval
  obtain ⟨hlog, hlines⟩ := of_decide_eq_true hall
  have hreach : (machine (text "n1") calibration).Reachable x :=
    Machine.reachable_of_exec init_begun hx
  exact ⟨x, hreach, hlog, hlines, (lines_are_stretches hreach).2 _ brackets_calibration 12345
    (by decide) ⟨⟨1700000000, 0⟩, ⟨100, 50⟩, ⟨1700000000, 100⟩⟩
    (by rw [calibration, Vector.toList_replicate]; exact List.mem_cons_self)⟩

/-! ### Exactness -/

/-- The tracer is used as it is meant to be, the events are polled while their processes are registered
and the writer goes on, and the file can be written. -/
def Undisturbed (x : Plot) : Action → Prop
  | .kernel a => Traced.Orderly x.traced a
  | .register _ _ => True
  | .clear => True
  | .poll opened printed =>
    x.writer.started = true ∧ opened = true ∧ printed.isDone = true ∧
      ∀ event ∈ x.pending, x.pidToTask.getD event.pid [] ≠ []
  | .stop flushed => (x.writer.stream.getD []).length ≤ flushed

structure Exact (readings : Vector ClockReading 20) (x : Plot) : Prop where
  frame : Frame readings x
  traced : x.traced.Exact
  closed : x.writer.started = false → x.writer.stream = none
  written : ∃ rows, x.Written rows ∧ x.writer.sent = x.writer.lines rows ∧
    rows.map Prod.fst = x.traced.tracer.buffer.take x.consumed

theorem exact_of_init (h : (machine nodeId readings).init x) : Exact readings x := by
  have hrows := written_of_init h
  have hstarted : x.writer.started = true := by
    rw [h.2.1]
    rfl
  refine ⟨frame_of_init h, Traced.exact_of_init h.1, fun hs => ?_, [], hrows,
    hrows.eq_of_started hstarted, ?_⟩
  · exact Bool.noConfusion (hstarted.symm.trans hs)
  · rw [h.2.2.2.1]
    rfl

theorem Exact.next {a : Action} (h : Exact readings x) (hok : Undisturbed x a)
    (hn : (machine nodeId readings).next x a = some x') : Exact readings x' := by
  have hframe := h.frame.next hn
  obtain ⟨rows, hrows, hsent, heq⟩ := h.written
  cases a with
  | kernel a =>
    obtain ⟨traced, ht, rfl⟩ := Option.map_eq_some_iff.1 hn
    refine ⟨hframe, h.traced.of_next hok ht, h.closed, rows,
      ⟨hrows.sent, hrows.eq_of_started, hrows.registered⟩, hsent, ?_⟩
    rw [heq, (take_append_of_le ht h.frame.consumed_le).2]
  | register pid taskName =>
    cases hn
    exact ⟨hframe, h.traced, h.closed, rows, hrows.of_sent rfl rfl (List.prefix_refl _)
      (fun hs => ⟨rfl, hs⟩) (List.subset_append_left _ _), hsent, heq⟩
  | clear =>
    cases hn
    exact ⟨hframe, h.traced, h.closed, rows, ⟨hrows.sent, hrows.eq_of_started, hrows.registered⟩, hsent,
      heq⟩
  | poll opened printed =>
    obtain ⟨event, hevent, rfl⟩ := Option.map_eq_some_iff.1 hn
    obtain ⟨hstarted, rfl, hdone, hname⟩ := hok
    have hname := hname event hevent
    have hempty : ¬ (x.pidToTask.getD event.pid []).isEmpty = true :=
      fun h => hname (List.isEmpty_iff.1 h)
    have hwriter : x.writer.schedstatCallback x.pidToTask event true printed =
        x.writer.writeEvent event (x.pidToTask.getD event.pid []) true printed := if_neg hempty
    have hgoes := GpdataWriter.started_writeEvent hstarted event (x.pidToTask.getD event.pid []) hdone
    obtain ⟨-, hid, hoffset, hcases⟩ := GpdataWriter.writeEvent_spec h.frame.fresh event
      (x.pidToTask.getD event.pid []) true printed
    have hwrites := hcases.resolve_left fun hstop => Bool.noConfusion (hstop.2.symm.trans hgoes)
    rw [← hwriter] at hgoes hid hoffset hwrites
    have happend : Written { x with
        writer := x.writer.schedstatCallback x.pidToTask event true printed
        consumed := x.consumed + 1 } (rows ++ [(event, x.pidToTask.getD event.pid [])]) :=
      hrows.append hid hoffset hwrites (h.frame.named _ hname) rfl
    refine ⟨hframe, h.traced, fun hs => Bool.noConfusion (hgoes.symm.trans hs), _, happend,
      happend.eq_of_started hgoes, ?_⟩
    rw [take_succ_consumed hevent, List.map_append, heq]
    rfl
  | stop flushed =>
    cases hn
    have hstop := GpdataWriter.stop_eq hok
    refine ⟨hframe, h.traced, fun _ => by rw [hstop], rows, hrows.stop flushed, ?_, heq⟩
    show (x.writer.stop flushed).sent = (x.writer.stop flushed).lines rows
    rw [GpdataWriter.lines_congr (GpdataWriter.nodeId_stop _ _) (GpdataWriter.ktimeOffsetNs_stop _ _),
      ← hsent, hstop]
    exact List.append_nil _

theorem exact_of_reachableIf (h : (machine nodeId readings).ReachableIf Undisturbed x) :
    Exact readings x :=
  h.invariant (fun _ hx => exact_of_init hx) fun _ _ _ hx hok hn => hx.next hok hn

theorem Exact.exists_rows (h : Exact readings x) : ∃ rows : List (SchedstatEvent × Text),
    x.writer.sent = x.writer.lines rows ∧
    (x.writer.started = false → x.writer.file = x.writer.lines rows) ∧
    rows.map (·.1) = ((x.traced.log.filter (·.2)).map (·.1)).take x.consumed ∧
    ∀ row ∈ rows, (row.1.pid, row.2) ∈ x.registered := by
  obtain ⟨rows, hrows, hsent, heq⟩ := h.written
  refine ⟨rows, hsent, fun hstopped => ?_, ?_, hrows.registered⟩
  · rw [← hsent, GpdataWriter.sent, h.closed hstopped, Option.getD_none, List.append_nil]
  · rw [← h.traced.trace]
    exact heq

/-- **The plot is exact.**  When nothing goes wrong, there is a line for every stretch of a process in
the filter, in the order of the log, as far as the events were polled: in the file and the buffer of
the stream, and once the writer was stopped, in the file. -/
theorem lines_are_log (h : (machine nodeId readings).ReachableIf Undisturbed x) :
    ∃ rows : List (SchedstatEvent × Text),
      x.writer.file ++ x.writer.stream.getD [] = x.writer.lines rows ∧
      (x.writer.started = false → x.writer.file = x.writer.lines rows) ∧
      rows.map (·.1) = ((x.traced.log.filter (·.2)).map (·.1)).take x.consumed ∧
      ∀ row ∈ rows, (row.1.pid, row.2) ∈ x.registered :=
  (exact_of_reachableIf h).exists_rows

instance {a : Action} : Decidable (Undisturbed x a) :=
  match a with
  | .kernel _ => inferInstanceAs (Decidable (Traced.Orderly _ _))
  | .register _ _ => inferInstanceAs (Decidable True)
  | .clear => inferInstanceAs (Decidable True)
  | .poll _ _ => inferInstanceAs (Decidable (_ ∧ _ ∧ _ ∧ _))
  | .stop _ => inferInstanceAs (Decidable (_ ≤ _))

/-- Both events are polled in time; half of the first line reaches the file before the writer is
stopped. -/
theorem lines_are_log_twoStretches :
    ∃ x, (machine (text "n1") calibration).ReachableIf Undisturbed x ∧ x.consumed = 2 ∧
      x.writer.file =
        text "brake            0 0 n1-C0 0 1699999900000010 1699999900000012 1699999900000020 0\n" ++
        text "brake            0 0 n1-C1 0 1699999900000030 1699999900000032 1699999900000040 0\n" ∧
      ∃ rows : List (SchedstatEvent × Text), x.writer.file = x.writer.lines rows ∧
        rows.map (·.1) = ((x.traced.log.filter (·.2)).map (·.1)).take x.consumed ∧
        ∀ row ∈ rows, (row.1.pid, row.2) ∈ x.registered := by
  have heval : ((machine (text "n1") calibration).execIf (fun x a => decide (Undisturbed x a)) begun
      (twoStretches ++ [.poll true (.done 40), .stop 200])).any (fun x => decide (x.consumed = 2 ∧
        x.writer.started = false ∧ x.writer.file =
        text "brake            0 0 n1-C0 0 1699999900000010 1699999900000012 1699999900000020 0\n" ++
        text "brake            0 0 n1-C1 0 1699999900000030 1699999900000032 1699999900000040 0\n"))
      = true := by
    decide +kernel
  obtain ⟨x, hx, hall⟩ := (Option.any_eq_true _ _).1 heval
  obtain ⟨hconsumed, hstopped, hfile⟩ := of_decide_eq_true hall
  have hreach : (machine (text "n1") calibration).ReachableIf Undisturbed x :=
    (Machine.ReachableIf.of_init init_begun).leads
      (Machine.leads_of_execIf (fun _ _ => of_decide_eq_true) hx)
  obtain ⟨rows, -, hrows, hlog, hregistered⟩ := lines_are_log hreach
  exact ⟨x, hreach, hconsumed, hfile, rows, hrows hstopped, hlog, hregistered⟩

end Plot

end Timpani
