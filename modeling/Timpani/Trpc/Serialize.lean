import Timpani.Cpp.CString
import Timpani.Cpp.Memory

/-!
# Serial buffers

`libtrpc` packs the values of a message into a buffer from which they are taken in the opposite
order.  Numbers are stored in network order; a blob is followed by its length, so that it can be
read from its end.  The buffer grows when it is full.

A function is undefined (`none`) where it would access memory outside the object it was given.

* `SerialBuf.reserveSpace` : growth;
* `SerialBuf.serializeT`, `SerialBuf.deserializeT` : the macros behind the functions for numbers;
* `SerialBuf.serializeBlob`, `SerialBuf.deserializeBlob` : blobs and strings;
* `SerialBuf.call` : a call of any of the functions;
* `SerialBuf.pos_unchanged_iff` : what a failed read consumes.
-/

namespace Timpani

namespace Trpc

open Memory

/-- A machine: its byte order and the width of its `size_t`. -/
structure Host where
  order : ByteOrder
  sizeBits : ℕ
  le_sizeBits : 32 ≤ sizeBits

/-- `serial_buf_t`, with the object that `data` points to. -/
structure SerialBuf where
  data : Text
  pos : ℕ
  size : ℕ
  deriving DecidableEq, Repr

/-- `INITIAL_SERIAL_BUF_SIZE` -/
def initialSerialBufSize : ℕ := 32

namespace SerialBuf

/-! ### Buffers -/

/-- `new_serial_buf`, where `memory` tells what `malloc` finds, or that it fails. -/
def newSerialBuf (memory : Option (ℕ → UInt8)) (size : ℕ) : Option SerialBuf :=
  let size := if size ≤ 0 then initialSerialBufSize else size
  memory.map fun found => { data := realloc [] size found, pos := 0, size := size }

/-- `make_serial_buf` -/
def makeSerialBuf (data : Text) : SerialBuf :=
  { data := data, pos := data.length, size := data.length }

/-- `reserve_space`; `none` if there is no memory. -/
def reserveSpace (host : Host) (memory : Option (ℕ → UInt8)) (b : SerialBuf) (bytes : ℕ) :
    Option SerialBuf :=
  let needed := (b.pos + bytes) % 2 ^ host.sizeBits
  if needed > b.size then
    let newSize := b.size * 2 % 2 ^ host.sizeBits
    let newSize := if needed > newSize then (newSize + bytes) % 2 ^ host.sizeBits else newSize
    memory.map fun found => { b with data := realloc b.data newSize found, size := newSize }
  else some b

/-- `memcpy` to the current position. -/
def append (host : Host) (b : SerialBuf) (bytes : Text) : Option SerialBuf :=
  (writeAt b.data b.pos bytes).map fun data =>
    { b with data := data, pos := (b.pos + bytes.length) % 2 ^ host.sizeBits }

/-! ### Numbers -/

/-- The conversion in `DEFINE_SERIALIZE_T` and `DEFINE_DESERIALIZE_T`: a single byte is left as it
is, the others go through `htons`, `htonl`, `htonll`, `htonf` or `htond`. -/
def convert (host : Host) (n x : ℕ) : ℕ :=
  match n with
  | 1 => x
  | n => host.order.hton n x

/-- `DEFINE_SERIALIZE_T`, for a value of `n` bytes with the bits `x`. -/
def serializeT (n : ℕ) (host : Host) (memory : Option (ℕ → UInt8)) (b : SerialBuf) (x : ℕ) :
    Option (ℤ × SerialBuf) :=
  let x := convert host n x
  match b.reserveSpace host memory n with
  | none => some (-1, b)
  | some b => (b.append host (host.order.store n x)).map fun b => (0, b)

/-- `DEFINE_DESERIALIZE_T`, for a value of `n` bytes. -/
def deserializeT (n : ℕ) (host : Host) (b : SerialBuf) : Option (ℤ × SerialBuf × Option ℕ) :=
  if b.pos < n then some (-1, b, none)
  else
    let b := { b with pos := b.pos - n }
    (readAt b.data b.pos n).map fun bytes => (0, b, some (convert host n (host.order.load bytes)))

section Numbers

variable (host : Host) (memory : Option (ℕ → UInt8)) (b : SerialBuf)

def serializeInt8 (t : Int8) : Option (ℤ × SerialBuf) :=
  serializeT 1 host memory b t.toUInt8.toNat

def serializeInt16 (t : Int16) : Option (ℤ × SerialBuf) :=
  serializeT 2 host memory b t.toUInt16.toNat

def serializeInt32 (t : Int32) : Option (ℤ × SerialBuf) :=
  serializeT 4 host memory b t.toUInt32.toNat

def serializeInt64 (t : Int64) : Option (ℤ × SerialBuf) :=
  serializeT 8 host memory b t.toUInt64.toNat

/-- A `float` is given by its bits. -/
def serializeFloat (bits : UInt32) : Option (ℤ × SerialBuf) :=
  serializeT 4 host memory b bits.toNat

/-- A `double` is given by its bits. -/
def serializeDouble (bits : UInt64) : Option (ℤ × SerialBuf) :=
  serializeT 8 host memory b bits.toNat

/-- What a call stores through its pointer, as a value of the type pointed to. -/
def storeAs {α β : Type} (f : α → β) (r : ℤ × SerialBuf × Option α) :
    ℤ × SerialBuf × Option β :=
  (r.1, r.2.1, r.2.2.map f)

def deserializeInt8 : Option (ℤ × SerialBuf × Option Int8) :=
  (deserializeT 1 host b).map (storeAs fun x => (UInt8.ofNat x).toInt8)

def deserializeInt16 : Option (ℤ × SerialBuf × Option Int16) :=
  (deserializeT 2 host b).map (storeAs fun x => (UInt16.ofNat x).toInt16)

def deserializeInt32 : Option (ℤ × SerialBuf × Option Int32) :=
  (deserializeT 4 host b).map (storeAs fun x => (UInt32.ofNat x).toInt32)

def deserializeInt64 : Option (ℤ × SerialBuf × Option Int64) :=
  (deserializeT 8 host b).map (storeAs fun x => (UInt64.ofNat x).toInt64)

def deserializeFloat : Option (ℤ × SerialBuf × Option UInt32) :=
  (deserializeT 4 host b).map (storeAs UInt32.ofNat)

def deserializeDouble : Option (ℤ × SerialBuf × Option UInt64) :=
  (deserializeT 8 host b).map (storeAs UInt64.ofNat)

end Numbers

/-! ### Blobs and strings -/

/-- `serialize_blob`; `t` is the object the caller points to. -/
def serializeBlob (host : Host) (memory : Option (ℕ → UInt8)) (b : SerialBuf) (t : Text)
    (bytes : UInt32) : Option (ℤ × SerialBuf) :=
  match b.reserveSpace host memory (bytes.toNat + 4) with
  | none => some (-1, b)
  | some b => do
    let payload ← readAt t 0 bytes.toNat
    let b ← b.append host payload
    let b ← b.append host (host.order.store 4 (host.order.hton 4 bytes.toNat))
    return (0, b)

/-- `deserialize_blob`, with what it stores through `bytes` and `t`. -/
def deserializeBlob (host : Host) (b : SerialBuf) :
    Option (ℤ × SerialBuf × Option UInt32 × Option Text) :=
  if b.pos < 4 then some (-1, b, none, none)
  else do
    let b := { b with pos := b.pos - 4 }
    let word ← readAt b.data b.pos 4
    let bytes := UInt32.ofNat (host.order.hton 4 (host.order.load word))
    if b.pos < bytes.toNat then return (-1, b, some bytes, none)
    else
      let b := { b with pos := b.pos - bytes.toNat }
      let payload ← readAt b.data b.pos bytes.toNat
      return (0, b, some bytes, some payload)

/-- `serialize_str`, for the string that `t` points to. -/
def serializeStr (host : Host) (memory : Option (ℕ → UInt8)) (b : SerialBuf) (t : Text) :
    Option (ℤ × SerialBuf) :=
  b.serializeBlob host memory t (UInt32.ofNat (cString t).length)

/-- `deserialize_str`, which writes a NUL behind the string. -/
def deserializeStr (host : Host) (b : SerialBuf) : Option (ℤ × SerialBuf × Option Text) :=
  (b.deserializeBlob host).map fun (status, b, _, t) =>
    if status ≠ 0 then (-1, b, none) else (0, b, t.map (· ++ [0]))

end SerialBuf

/-! ### Calls -/

/-- A value of one of the types. -/
inductive Value where
  | int8 (t : Int8)
  | int16 (t : Int16)
  | int32 (t : Int32)
  | int64 (t : Int64)
  | float (bits : UInt32)
  | double (bits : UInt64)
  | blob (t : Text)
  | str (t : Text)
  deriving DecidableEq

/-- The types. -/
inductive Kind where
  | int8
  | int16
  | int32
  | int64
  | float
  | double
  | blob
  | str
  deriving DecidableEq, Repr

def Value.kind : Value → Kind
  | int8 _ => .int8
  | int16 _ => .int16
  | int32 _ => .int32
  | int64 _ => .int64
  | float _ => .float
  | double _ => .double
  | blob _ => .blob
  | str _ => .str

/-- A call of one of the functions. -/
inductive Call where
  | serialize (v : Value) (memory : Option (ℕ → UInt8))
  | deserialize (kind : Kind)

namespace SerialBuf

/-- `serialize_*` of a value; a blob is given with its length, and the object of a string has a NUL
at its end. -/
def serialize (host : Host) (memory : Option (ℕ → UInt8)) (b : SerialBuf) :
    Value → Option (ℤ × SerialBuf)
  | .int8 t => b.serializeInt8 host memory t
  | .int16 t => b.serializeInt16 host memory t
  | .int32 t => b.serializeInt32 host memory t
  | .int64 t => b.serializeInt64 host memory t
  | .float bits => b.serializeFloat host memory bits
  | .double bits => b.serializeDouble host memory bits
  | .blob t => b.serializeBlob host memory t (UInt32.ofNat t.length)
  | .str t => b.serializeStr host memory (t ++ [0])

/-- The blob that the caller of `deserialize_blob` finds: bytes and their number. -/
def foundBlob : Option UInt32 → Option Text → Option Value
  | some bytes, some t => if bytes.toNat = t.length then some (.blob t) else none
  | _, _ => none

/-- `deserialize_*` of a type, with the value that the caller finds; a string ends before its
NUL. -/
def deserialize (host : Host) (b : SerialBuf) : Kind → Option (ℤ × SerialBuf × Option Value)
  | .int8 => (b.deserializeInt8 host).map (storeAs Value.int8)
  | .int16 => (b.deserializeInt16 host).map (storeAs Value.int16)
  | .int32 => (b.deserializeInt32 host).map (storeAs Value.int32)
  | .int64 => (b.deserializeInt64 host).map (storeAs Value.int64)
  | .float => (b.deserializeFloat host).map (storeAs Value.float)
  | .double => (b.deserializeDouble host).map (storeAs Value.double)
  | .blob => (b.deserializeBlob host).map fun (status, b, bytes, t) =>
      (status, b, foundBlob bytes t)
  | .str => (b.deserializeStr host).map (storeAs fun t => Value.str (cString t))

/-- A call, with its return value and the value it has stored. -/
def call (host : Host) (b : SerialBuf) : Call → Option (ℤ × SerialBuf × Option Value)
  | .serialize v memory => (b.serialize host memory v).map fun (status, b) => (status, b, none)
  | .deserialize kind => b.deserialize host kind

/-- A sequence of calls: the result of each one, and the buffer at the end. -/
def run (host : Host) :
    SerialBuf → List Call → Option (List (ℤ × SerialBuf × Option Value) × SerialBuf)
  | b, [] => some ([], b)
  | b, c :: calls => do
    let r ← b.call host c
    let (rs, b) ← run host r.2.1 calls
    return (r :: rs, b)

/-! ### Failed reads -/

variable {host : Host} {b : SerialBuf} {n : ℕ}

/-- The number in network order in the four bytes below the position. -/
def lengthWord (b : SerialBuf) : ℕ := ofLeBytes ((b.data.drop (b.pos - 4)).take 4).reverse

theorem deserializeT_failed {r : ℤ × SerialBuf × Option ℕ} (h : deserializeT n host b = some r)
    (hr : r.1 = -1) : r.2.1 = b := by
  unfold deserializeT at h
  split_ifs at h
  · cases h
    rfl
  · obtain ⟨bytes, -, rfl⟩ := Option.map_eq_some_iff.1 h
    cases hr

/-- What `deserialize_blob` does if there is a length: it has taken it before it finds out that the
blob is not there. -/
theorem deserializeBlob_eq (hpos : 4 ≤ b.pos) (hlen : b.pos ≤ b.data.length) :
    b.deserializeBlob host =
      let b' := { b with pos := b.pos - 4 }
      if b.pos - 4 < b.lengthWord then some (-1, b', some (.ofNat b.lengthWord), none)
      else (readAt b.data (b.pos - 4 - b.lengthWord) b.lengthWord).map fun payload =>
        (0, { b with pos := b.pos - 4 - b.lengthWord }, some (.ofNat b.lengthWord),
          some payload) := by
  have hread : readAt b.data (b.pos - 4) 4 = some ((b.data.drop (b.pos - 4)).take 4) :=
    if_pos (by omega)
  have hword : ((b.data.drop (b.pos - 4)).take 4).length = 4 := by
    rw [List.length_take, List.length_drop]
    omega
  have hvalue : host.order.hton 4 (host.order.load ((b.data.drop (b.pos - 4)).take 4)) =
      b.lengthWord := by
    have h := host.order.hton_load_eq ((b.data.drop (b.pos - 4)).take 4)
    rwa [hword] at h
  have hlt : b.lengthWord < 2 ^ 32 := by
    have h := ofLeBytes_lt ((b.data.drop (b.pos - 4)).take 4).reverse
    rwa [List.length_reverse, hword] at h
  unfold deserializeBlob
  rw [if_neg (by omega)]
  simp only [hread, hvalue, Option.bind_eq_bind, Option.bind_some,
    UInt32.toNat_ofNat_of_lt' hlt]
  split_ifs
  · rfl
  · cases readAt b.data (b.pos - 4 - b.lengthWord) b.lengthWord <;> rfl

theorem status_deserializeBlob {r : ℤ × SerialBuf × Option UInt32 × Option Text}
    (h : b.deserializeBlob host = some r) : r.1 = -1 ↔ r.1 ≠ 0 := by
  have hcases : r.1 = -1 ∨ r.1 = 0 := by
    unfold deserializeBlob at h
    split_ifs at h
    · cases h
      exact Or.inl rfl
    · obtain ⟨word, -, h⟩ := Option.bind_eq_some_iff.1 h
      dsimp only at h
      split_ifs at h
      · cases h
        exact Or.inl rfl
      · obtain ⟨payload, -, h⟩ := Option.bind_eq_some_iff.1 h
        cases h
        exact Or.inr rfl
  omega

theorem deserializeBlob_failed_iff :
    (∀ r, b.deserializeBlob host = some r → r.1 ≠ 0 → r.2.1.pos = b.pos) ↔
      (4 ≤ b.pos → b.pos ≤ b.data.length → b.lengthWord ≤ b.pos - 4) := by
  by_cases hpos : 4 ≤ b.pos
  swap
  · refine iff_of_true (fun r hr _ => ?_) fun h => absurd h hpos
    rw [deserializeBlob, if_pos (by omega)] at hr
    cases hr
    rfl
  by_cases hlen : b.pos ≤ b.data.length
  swap
  · refine iff_of_true (fun r hr _ => ?_) fun _ h => absurd h hlen
    have hread : readAt b.data (b.pos - 4) 4 = none := if_neg (by omega)
    rw [deserializeBlob, if_neg (by omega)] at hr
    simp [hread] at hr
  rw [deserializeBlob_eq hpos hlen]
  simp only [hpos, hlen, forall_const]
  split_ifs with hshort
  · refine iff_of_false (fun h => ?_) (Nat.not_le_of_lt hshort)
    have hmoved : b.pos - 4 = b.pos := h _ rfl (show (-1 : ℤ) ≠ 0 by decide)
    omega
  · refine iff_of_true (fun r hr hfailed => ?_) (Nat.le_of_not_lt hshort)
    obtain ⟨payload, -, rfl⟩ := Option.map_eq_some_iff.1 hr
    exact absurd rfl hfailed

/-- A blob or a string of the length that stands below the position is there. -/
def Held (b : SerialBuf) (kind : Kind) : Prop :=
  kind = .blob ∨ kind = .str → 4 ≤ b.pos → b.pos ≤ b.data.length → b.lengthWord ≤ b.pos - 4

theorem storeAs_failed {α : Type} {f : ℕ → α} {mk : α → Value}
    {r : ℤ × SerialBuf × Option Value}
    (h : ((deserializeT n host b).map (storeAs f)).map (storeAs mk) = some r) (hr : r.1 = -1) :
    r.2.1.pos = b.pos := by
  obtain ⟨r₁, h₁, rfl⟩ := Option.map_eq_some_iff.1 h
  obtain ⟨r₂, h₂, rfl⟩ := Option.map_eq_some_iff.1 h₁
  exact congrArg pos (deserializeT_failed h₂ hr)

/-- **A failed read consumes nothing**, except for the length of a blob or string that is not
there. -/
theorem pos_unchanged_iff (host : Host) (b : SerialBuf) (kind : Kind) :
    (∀ r, b.deserialize host kind = some r → r.1 = -1 → r.2.1.pos = b.pos) ↔ b.Held kind := by
  have hnumber : kind ≠ .blob → kind ≠ .str → b.Held kind := fun hblob hstr h =>
    absurd h (not_or.2 ⟨hblob, hstr⟩)
  cases kind with
  | int8 => exact iff_of_true (fun _ => storeAs_failed) (hnumber nofun nofun)
  | int16 => exact iff_of_true (fun _ => storeAs_failed) (hnumber nofun nofun)
  | int32 => exact iff_of_true (fun _ => storeAs_failed) (hnumber nofun nofun)
  | int64 => exact iff_of_true (fun _ => storeAs_failed) (hnumber nofun nofun)
  | float => exact iff_of_true (fun _ => storeAs_failed) (hnumber nofun nofun)
  | double => exact iff_of_true (fun _ => storeAs_failed) (hnumber nofun nofun)
  | blob =>
    have hheld : b.Held .blob ↔ _ := (forall_prop_of_true (Or.inl rfl)).trans
      (@deserializeBlob_failed_iff host b).symm
    refine Iff.trans ?_ hheld.symm
    simp only [deserialize, Option.map_eq_some_iff, forall_exists_index, and_imp,
      forall_apply_eq_imp_iff₂]
    exact forall₂_congr fun r hr => imp_congr_left (status_deserializeBlob hr)
  | str =>
    have hheld : b.Held .str ↔ _ := (forall_prop_of_true (Or.inr rfl)).trans
      (@deserializeBlob_failed_iff host b).symm
    refine Iff.trans ?_ hheld.symm
    simp only [deserialize, deserializeStr, Option.map_eq_some_iff, forall_exists_index, and_imp,
      forall_apply_eq_imp_iff₂]
    refine forall₂_congr fun r hr => ?_
    by_cases hfailed : r.1 = 0
    · simp [storeAs, hfailed]
    · simp [storeAs, hfailed]

/-- The number nine is on the stack.  Read as a blob it is the length of one that is not there, and
then it is gone. -/
theorem length_consumed :
    let host : Host := ⟨.little, 64, by decide⟩
    let b := makeSerialBuf [0, 0, 0, 9]
    b.deserialize host .int32 = some (0, { b with pos := 0 }, some (.int32 9)) ∧
      b.deserialize host .blob = some (-1, { b with pos := 0 }, none) ∧
      b.deserialize host .str = some (-1, { b with pos := 0 }, none) ∧
      ({ b with pos := 0 } : SerialBuf).deserialize host .int32 =
        some (-1, { b with pos := 0 }, none) := by
  decide

end SerialBuf

end Trpc

end Timpani
