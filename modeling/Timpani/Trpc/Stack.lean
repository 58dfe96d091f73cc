import Timpani.Trpc.Serialize

/-!
# Serial buffers are typed stacks

A serial buffer holds the bytes of the values that were put into it and not taken out, one after the
other.  The bytes are the same on every machine, so another machine can take the values out.

* `Runs` : what a typed stack does in a sequence of calls;
* `SerialBuf.Contains` : **the invariant**, the bytes before the position;
* `SerialBuf.reserveSpace_spec` : growth makes enough room for any mix of sizes;
* `SerialBuf.serialize_spec`, `SerialBuf.deserialize_spec` : a value is put in and taken out;
* `SerialBuf.typed_stack` : **a buffer is a typed stack**, on one machine and across machines.
-/

namespace Timpani

namespace Trpc

open Memory

/-! ### The stack -/

namespace Value

/-- The bytes of a value in a buffer. -/
def wire : Value → Text
  | int8 t => beBytes 1 t.toUInt8.toNat
  | int16 t => beBytes 2 t.toUInt16.toNat
  | int32 t => beBytes 4 t.toUInt32.toNat
  | int64 t => beBytes 8 t.toUInt64.toNat
  | float bits => beBytes 4 bits.toNat
  | double bits => beBytes 8 bits.toNat
  | blob t | str t => t ++ beBytes 4 t.length

/-- A string has no NUL inside. -/
def Valid : Value → Prop
  | str t => 0 ∉ t
  | _ => True

end Value

/-- The bytes of a stack, whose top is the first element of the list. -/
def wire : List Value → Text
  | [] => []
  | v :: vs => wire vs ++ v.wire

/-- `Runs vs calls outs vs'`: the calls take the stack `vs` to `vs'` and return `outs`.  Memory is
found when needed, the stack stays below 2 GiB, and values are taken out under their own type. -/
inductive Runs : List Value → List Call → List (Option Value) → List Value → Prop
  | nil (vs : List Value) : Runs vs [] [] vs
  | serialize {v : Value} {vs vs' : List Value} {calls : List Call} {outs : List (Option Value)}
      (found : ℕ → UInt8) (hvalid : v.Valid) (htotal : (wire (v :: vs)).length < 2 ^ 31)
      (h : Runs (v :: vs) calls outs vs') :
      Runs vs (.serialize v (some found) :: calls) (none :: outs) vs'
  | deserialize {v : Value} {vs vs' : List Value} {calls : List Call} {outs : List (Option Value)}
      (h : Runs vs calls outs vs') :
      Runs (v :: vs) (.deserialize v.kind :: calls) (some v :: outs) vs'

namespace SerialBuf

variable {b : SerialBuf} {front bytes : Text} {n x : ℕ} (host : Host)

/-- **The invariant**: the buffer is as large as it says, and holds these bytes before its
position. -/
structure Contains (b : SerialBuf) (front : Text) : Prop where
  length_data : b.data.length = b.size
  pos_le : b.pos ≤ b.size
  take_data : b.data.take b.pos = front

theorem Contains.pos_eq (h : Contains b front) : b.pos = front.length := by
  rw [← h.take_data, List.length_take, h.length_data, min_eq_left h.pos_le]

theorem Contains.newSerialBuf (found : ℕ → UInt8) (size : ℕ) :
    ∃ b, newSerialBuf (some found) size = some b ∧ Contains b [] :=
  ⟨_, rfl, length_realloc .., Nat.zero_le _, rfl⟩

theorem Contains.makeSerialBuf (front : Text) : Contains (makeSerialBuf front) front :=
  ⟨rfl, le_rfl, List.take_length⟩

theorem mod_sizeBits (h : x < 2 ^ 32) : x % 2 ^ host.sizeBits = x :=
  Nat.mod_eq_of_lt (h.trans_le (Nat.pow_le_pow_right (by decide) host.le_sizeBits))

/-- **Growth makes room.** Doubling is enough, or the bytes still fit behind the doubled buffer. -/
theorem reserveSpace_spec (h : Contains b front) (found : ℕ → UInt8)
    (htotal : front.length + n < 2 ^ 31) :
    ∃ b', b.reserveSpace host (some found) n = some b' ∧ Contains b' front ∧
      b'.pos + n ≤ b'.size := by
  rw [← h.pos_eq] at htotal
  have hneeded := mod_sizeBits host (show b.pos + n < 2 ^ 32 by omega)
  simp only [reserveSpace, hneeded]
  split_ifs with hgrow hmore
  -- in both cases of growth the size was below 2 GiB, so the new size does not wrap
  · have hdouble := mod_sizeBits host (show b.size * 2 < 2 ^ 32 by omega)
    rw [hdouble] at hmore ⊢
    have hmore' := mod_sizeBits host (show b.size * 2 + n < 2 ^ 32 by omega)
    rw [hmore']
    have hle := h.pos_le
    refine ⟨_, rfl, ⟨length_realloc .., show b.pos ≤ b.size * 2 + n by omega, ?_⟩,
      show b.pos + n ≤ b.size * 2 + n by omega⟩
    rw [← h.take_data]
    exact take_realloc found (h.length_data ▸ hle) (show b.pos ≤ b.size * 2 + n by omega)
  · have hdouble := mod_sizeBits host (show b.size * 2 < 2 ^ 32 by omega)
    rw [hdouble] at hmore ⊢
    have hle := h.pos_le
    refine ⟨_, rfl, ⟨length_realloc .., show b.pos ≤ b.size * 2 by omega, ?_⟩,
      show b.pos + n ≤ b.size * 2 by omega⟩
    rw [← h.take_data]
    exact take_realloc found (h.length_data ▸ hle) (show b.pos ≤ b.size * 2 by omega)
  · exact ⟨b, rfl, h, by omega⟩

theorem append_spec (h : Contains b front) (hroom : b.pos + bytes.length ≤ b.size)
    (htotal : front.length + bytes.length < 2 ^ 31) :
    ∃ b', b.append host bytes = some b' ∧ Contains b' (front ++ bytes) ∧ b'.size = b.size := by
  obtain ⟨data, hdata⟩ : ∃ data, writeAt b.data b.pos bytes = some data :=
    ⟨_, if_pos (h.length_data ▸ hroom)⟩
  obtain ⟨htake, hlen⟩ := take_writeAt hdata
  have hpos := mod_sizeBits host (show b.pos + bytes.length < 2 ^ 32 by rw [h.pos_eq]; omega)
  refine ⟨{ b with data := data, pos := b.pos + bytes.length }, by rw [append, hdata, hpos]; rfl,
    ⟨hlen.trans h.length_data, hroom, ?_⟩, rfl⟩
  rw [← h.take_data]
  exact htake

/-! ### Numbers -/

theorem store_convert (n x : ℕ) : host.order.store n (convert host n x) = beBytes n x := by
  unfold convert
  split
  · cases host.order <;> rfl
  · exact host.order.store_hton _ x

theorem convert_load (h : x < 256 ^ n) :
    convert host n (host.order.load (beBytes n x)) = x := by
  unfold convert
  split
  · have hone := ofLeBytes_leBytes h
    cases host.order <;> exact hone
  · exact host.order.hton_load h

theorem serializeT_spec (h : Contains b front) (found : ℕ → UInt8)
    (htotal : front.length + n < 2 ^ 31) (x : ℕ) :
    ∃ b', b.serializeT n host (some found) x = some (0, b') ∧
      Contains b' (front ++ beBytes n x) := by
  obtain ⟨b₁, hreserve, h₁, hroom⟩ := reserveSpace_spec host h found htotal
  have hroom₁ : b₁.pos + (beBytes n x).length ≤ b₁.size := by rwa [length_beBytes]
  obtain ⟨b₂, happend, h₂, -⟩ := append_spec host h₁ hroom₁ (by rwa [length_beBytes])
  refine ⟨b₂, ?_, h₂⟩
  simp only [serializeT, hreserve, store_convert, happend, Option.map_some]

theorem read_spec (h : Contains b (front ++ bytes)) :
    ¬ b.pos < bytes.length ∧
      readAt b.data (b.pos - bytes.length) bytes.length = some bytes ∧
      Contains { b with pos := b.pos - bytes.length } front := by
  have hpos := h.pos_eq
  rw [List.length_append] at hpos
  obtain ⟨hread, hfront⟩ := readAt_of_take (h.length_data ▸ h.pos_le) h.take_data
  exact ⟨by omega, hread, h.length_data, (Nat.sub_le ..).trans h.pos_le, hfront⟩

theorem deserializeT_spec (hx : x < 256 ^ n) (h : Contains b (front ++ beBytes n x)) :
    ∃ b', b.deserializeT n host = some (0, b', some x) ∧ Contains b' front := by
  obtain ⟨hpos, hread, hfront⟩ := read_spec h
  rw [length_beBytes] at hpos hread hfront
  refine ⟨_, ?_, hfront⟩
  simp only [deserializeT, if_neg hpos, hread, Option.map_some, convert_load host hx]

/-! ### Blobs -/

theorem serializeBlob_spec (h : Contains b front) (found : ℕ → UInt8) (t rest : Text)
    (htotal : front.length + (t.length + 4) < 2 ^ 31) :
    ∃ b', b.serializeBlob host (some found) (t ++ rest) (UInt32.ofNat t.length) = some (0, b') ∧
      Contains b' (front ++ (t ++ beBytes 4 t.length)) := by
  have hlen : (UInt32.ofNat t.length).toNat = t.length :=
    UInt32.toNat_ofNat_of_lt' (show t.length < 2 ^ 32 by omega)
  obtain ⟨b₁, hreserve, h₁, hroom⟩ := reserveSpace_spec host h found htotal
  have hroom₁ : b₁.pos + t.length ≤ b₁.size := by omega
  obtain ⟨b₂, hpayload, h₂, hsize⟩ := append_spec host h₁ hroom₁ (by omega)
  have hroom₂ : b₂.pos + (beBytes 4 t.length).length ≤ b₂.size := by
    rw [h₂.pos_eq, hsize, length_beBytes, List.length_append, ← h₁.pos_eq]
    omega
  obtain ⟨b₃, hword, h₃, -⟩ := append_spec host h₂ hroom₂ (by
    rw [length_beBytes, List.length_append]
    omega)
  have hread : readAt (t ++ rest) 0 t.length = some t := by
    rw [readAt, if_pos (by rw [List.length_append]; omega), List.drop_zero, List.take_left]
  refine ⟨b₃, ?_, by rwa [← List.append_assoc]⟩
  simp only [serializeBlob, hlen, hreserve, hread, hpayload, host.order.store_hton, hword,
    Option.bind_eq_bind, Option.bind_some, Option.pure_def]

theorem deserializeBlob_spec {t : Text} (hlt : t.length < 2 ^ 31)
    (h : Contains b (front ++ (t ++ beBytes 4 t.length))) :
    ∃ b', b.deserializeBlob host = some (0, b', some (UInt32.ofNat t.length), some t) ∧
      Contains b' front := by
  rw [← List.append_assoc] at h
  obtain ⟨hpos, hword, h₁⟩ := read_spec h
  obtain ⟨hpos', hpayload, h₂⟩ := read_spec h₁
  rw [length_beBytes] at hpos hword hpos' hpayload h₂
  have hconv := host.order.hton_load (n := 4) (x := t.length) (by omega)
  have hlen : (UInt32.ofNat t.length).toNat = t.length :=
    UInt32.toNat_ofNat_of_lt' (show t.length < 2 ^ 32 by omega)
  refine ⟨_, ?_, h₂⟩
  simp only [deserializeBlob, if_neg hpos, hword, hconv, hlen, if_neg hpos', hpayload,
    Option.bind_eq_bind, Option.bind_some, Option.pure_def]

/-! ### Values -/

theorem cString_append_zero {t : Text} (h : 0 ∉ t) : cString (t ++ [0]) = t := by
  have hne : ∀ b ∈ t, decide (b ≠ 0) = true := fun b hb =>
    decide_eq_true fun h0 => h (h0 ▸ hb)
  rw [cString, List.takeWhile_append_of_pos hne]
  simp

/-- **A value is put in.** -/
theorem serialize_spec {v : Value} (h : Contains b front) (found : ℕ → UInt8) (hvalid : v.Valid)
    (htotal : (front ++ v.wire).length < 2 ^ 31) :
    ∃ b', b.serialize host (some found) v = some (0, b') ∧ Contains b' (front ++ v.wire) := by
  rw [List.length_append] at htotal
  cases v with
  | int8 t => exact serializeT_spec host h found htotal _
  | int16 t => exact serializeT_spec host h found htotal _
  | int32 t => exact serializeT_spec host h found htotal _
  | int64 t => exact serializeT_spec host h found htotal _
  | float bits => exact serializeT_spec host h found htotal _
  | double bits => exact serializeT_spec host h found htotal _
  | blob t =>
    rw [Value.wire, List.length_append, length_beBytes] at htotal
    have hspec := serializeBlob_spec host h found t [] htotal
    rwa [List.append_nil] at hspec
  | str t =>
    rw [Value.wire, List.length_append, length_beBytes] at htotal
    have hspec := serializeBlob_spec host h found t [0] htotal
    rw [serialize, serializeStr, cString_append_zero hvalid]
    exact hspec

theorem deserializeT_storeAs {α : Type} {f : ℕ → α} {mk : α → Value} {v : Value}
    (hx : x < 256 ^ n) (hv : mk (f x) = v) (h : Contains b (front ++ beBytes n x)) :
    ∃ b', ((b.deserializeT n host).map (storeAs f)).map (storeAs mk) = some (0, b', some v) ∧
      Contains b' front := by
  obtain ⟨b', hb, h'⟩ := deserializeT_spec host hx h
  exact ⟨b', by rw [hb, ← hv]; rfl, h'⟩

/-- **A value is taken out.** -/
theorem deserialize_spec {v : Value} (hvalid : v.Valid) (hlt : v.wire.length < 2 ^ 31)
    (h : Contains b (front ++ v.wire)) :
    ∃ b', b.deserialize host v.kind = some (0, b', some v) ∧ Contains b' front := by
  cases v with
  | int8 t =>
    exact deserializeT_storeAs host t.toUInt8.toNat_lt (by rw [UInt8.ofNat_toNat]; rfl) h
  | int16 t =>
    exact deserializeT_storeAs host t.toUInt16.toNat_lt (by rw [UInt16.ofNat_toNat]; rfl) h
  | int32 t =>
    exact deserializeT_storeAs host t.toUInt32.toNat_lt (by rw [UInt32.ofNat_toNat]; rfl) h
  | int64 t =>
    exact deserializeT_storeAs host t.toUInt64.toNat_lt (by rw [UInt64.ofNat_toNat]; rfl) h
  | float bits =>
    exact deserializeT_storeAs host bits.toNat_lt (by rw [UInt32.ofNat_toNat]) h
  | double bits =>
    exact deserializeT_storeAs host bits.toNat_lt (by rw [UInt64.ofNat_toNat]) h
  | blob t =>
    rw [Value.wire, List.length_append] at hlt
    obtain ⟨b', hb, h'⟩ := deserializeBlob_spec host (by omega) h
    refine ⟨b', ?_, h'⟩
    have hlen : (UInt32.ofNat t.length).toNat = t.length :=
      UInt32.toNat_ofNat_of_lt' (show t.length < 2 ^ 32 by omega)
    simp only [deserialize, Value.kind, hb, Option.map_some, foundBlob, hlen, if_true]
  | str t =>
    rw [Value.wire, List.length_append] at hlt
    obtain ⟨b', hb, h'⟩ := deserializeBlob_spec host (by omega) h
    refine ⟨b', ?_, h'⟩
    simp [deserialize, Value.kind, deserializeStr, hb, storeAs, cString_append_zero hvalid]

/-! ### Sequences of calls -/

/-- What the values on a stack have in common. -/
structure Stackable (vs : List Value) : Prop where
  valid : ∀ v ∈ vs, v.Valid
  total : (wire vs).length < 2 ^ 31

/-- A call that has returned 0 and left the buffer in order. -/
structure Succeeded (r : ℤ × SerialBuf × Option Value) : Prop where
  status : r.1 = 0
  pos_le : r.2.1.pos ≤ r.2.1.size
  length_data : r.2.1.data.length = r.2.1.size

/-- **The calls do what the stack does.** -/
theorem run_spec {vs vs' : List Value} {calls : List Call} {outs : List (Option Value)}
    (hruns : Runs vs calls outs vs') (hvs : Stackable vs) (h : Contains b (wire vs)) :
    ∃ rs b', b.run host calls = some (rs, b') ∧ rs.map (·.2.2) = outs ∧
      (∀ r ∈ rs, Succeeded r) ∧ Contains b' (wire vs') ∧ Stackable vs' := by
  induction hruns generalizing b with
  | nil vs => exact ⟨[], b, rfl, rfl, List.forall_mem_nil _, h, hvs⟩
  | @serialize v vs vs' calls outs found hvalid htotal hruns ih =>
    obtain ⟨b₁, hcall, h₁⟩ := serialize_spec host h found hvalid htotal
    obtain ⟨rs, b', hrun, houts, hok, h', hvs'⟩ :=
      ih ⟨List.forall_mem_cons.2 ⟨hvalid, hvs.valid⟩, htotal⟩ h₁
    refine ⟨(0, b₁, none) :: rs, b', ?_, by rw [List.map_cons, houts],
      List.forall_mem_cons.2 ⟨⟨rfl, h₁.pos_le, h₁.length_data⟩, hok⟩, h', hvs'⟩
    simp only [run, call, hcall, Option.map_some, hrun, Option.bind_eq_bind, Option.bind_some,
      Option.pure_def]
  | @deserialize v vs vs' calls outs hruns ih =>
    have htotal := hvs.total
    rw [wire, List.length_append] at htotal
    obtain ⟨b₁, hcall, h₁⟩ :=
      deserialize_spec host (hvs.valid v List.mem_cons_self) (by omega) h
    obtain ⟨rs, b', hrun, houts, hok, h', hvs'⟩ :=
      ih ⟨fun u hu => hvs.valid u (List.mem_cons_of_mem _ hu), by omega⟩ h₁
    refine ⟨(0, b₁, some v) :: rs, b', ?_, by rw [List.map_cons, houts],
      List.forall_mem_cons.2 ⟨⟨rfl, h₁.pos_le, h₁.length_data⟩, hok⟩, h', hvs'⟩
    simp only [run, call, hcall, hrun, Option.bind_eq_bind, Option.bind_some, Option.pure_def]

/-- **A serial buffer is a typed stack.** Whatever a typed stack does in a sequence of calls, a new
buffer of any initial size does: no call leaves its object, all return 0 with the values of the
stack, and an empty stack is position 0.  And when the bytes before the position are handed over to
any other machine, the buffer made from them continues as the stack does. -/
theorem typed_stack (size : ℕ) (found : ℕ → UInt8) {calls : List Call}
    {outs : List (Option Value)} {vs : List Value} (hruns : Runs [] calls outs vs) :
    ∃ b₀ rs b, newSerialBuf (some found) size = some b₀ ∧ b₀.run host calls = some (rs, b) ∧
      rs.map (·.2.2) = outs ∧ (∀ r ∈ rs, Succeeded r) ∧ (vs = [] → b.pos = 0) ∧
      ∀ (host' : Host) {calls' : List Call} {outs' : List (Option Value)} {vs' : List Value},
        Runs vs calls' outs' vs' →
        ∃ rs' b', (makeSerialBuf (b.data.take b.pos)).run host' calls' = some (rs', b') ∧
          rs'.map (·.2.2) = outs' ∧ (∀ r ∈ rs', Succeeded r) ∧ (vs' = [] → b'.pos = 0) := by
  have hempty : ∀ {b vs}, Contains b (wire vs) → vs = [] → b.pos = 0 := by
    rintro b _ h rfl
    exact h.pos_eq
  obtain ⟨b₀, hnew, h₀⟩ := Contains.newSerialBuf found size
  obtain ⟨rs, b, hrun, houts, hok, h, hvs⟩ :=
    run_spec host hruns ⟨List.forall_mem_nil _, by decide⟩ h₀
  refine ⟨b₀, rs, b, hnew, hrun, houts, hok, hempty h, fun host' calls' outs' vs' hruns' => ?_⟩
  rw [h.take_data]
  obtain ⟨rs', b', hrun', houts', hok', h', -⟩ :=
    run_spec host' hruns' hvs (Contains.makeSerialBuf _)
  exact ⟨rs', b', hrun', houts', hok', hempty h'⟩

/-- A 64-bit machine with little-endian byte order. -/
def littleHost : Host := ⟨.little, 64, by decide⟩

/-- A 32-bit machine with big-endian byte order. -/
def bigHost : Host := ⟨.big, 32, by decide⟩

/-- Two values in a buffer of one byte; they are taken out on another machine. -/
theorem typed_stack_two :
    let calls : List Call := [.serialize (.int32 (-2)) (some fun _ => 7),
      .serialize (.str (text "ab")) (some fun _ => 7)]
    ∃ b₀ rs b, newSerialBuf (some fun _ => 7) 1 = some b₀ ∧
      b₀.run littleHost calls = some (rs, b) ∧
      ∃ rs' b', (makeSerialBuf (b.data.take b.pos)).run bigHost
          [.deserialize .str, .deserialize .int32] = some (rs', b') ∧
        rs'.map (·.2.2) = [some (.str (text "ab")), some (.int32 (-2))] ∧ b'.pos = 0 := by
  intro calls
  have hruns : Runs [] calls [none, none] [.str (text "ab"), .int32 (-2)] :=
    .serialize _ trivial (by decide +kernel)
      (.serialize _ (show 0 ∉ text "ab" by decide +kernel) (by decide +kernel) (.nil _))
  obtain ⟨b₀, rs, b, hnew, hrun, -, -, -, hover⟩ := typed_stack littleHost 1 (fun _ => 7) hruns
  obtain ⟨rs', b', hrun', houts, -, hpos⟩ :=
    hover bigHost (.deserialize (.deserialize (.nil [])))
  exact ⟨b₀, rs, b, hnew, hrun, rs', b', hrun', houts, hpos rfl⟩

end SerialBuf

end Trpc

end Timpani
