import Mathlib.Algebra.Group.Nat.Even
import Mathlib.Algebra.Order.Ring.Nat
import Mathlib.Data.Nat.Notation

/-!
# Objects in memory

An object is the list of its bytes.  `memcpy` to or from an offset is defined as long as it stays
within the object.  A number of `n` bytes is stored in the byte order of the machine; network order
is big-endian, and the conversions `htons`, `htonl` and the like swap the bytes on a little-endian
machine.

* `take_writeAt`, `readAt_of_take` : bytes are appended to a part of an object and taken from its
  end;
* `store_hton` : **a converted number is stored in network order**, on every machine;
* `hton_load` : and is read back from network order on every machine.
-/

namespace Timpani

namespace Memory

/-! ### Copying -/

/-- `memcpy(data + off, bytes, bytes.length)`, if it stays within the object. -/
def writeAt (data : List UInt8) (off : ℕ) (bytes : List UInt8) : Option (List UInt8) :=
  if off + bytes.length ≤ data.length then
    some (data.take off ++ bytes ++ data.drop (off + bytes.length))
  else none

/-- `memcpy(…, data + off, n)`, if it stays within the object. -/
def readAt (data : List UInt8) (off n : ℕ) : Option (List UInt8) :=
  if off + n ≤ data.length then some ((data.drop off).take n) else none

/-- `realloc(data, size)`; what is new holds whatever bytes are found there. -/
def realloc (data : List UInt8) (size : ℕ) (found : ℕ → UInt8) : List UInt8 :=
  (List.range size).map fun i => data.getD i (found i)

@[simp] theorem length_realloc (data : List UInt8) (size : ℕ) (found : ℕ → UInt8) :
    (realloc data size found).length = size := by simp [realloc]

theorem take_realloc {data : List UInt8} {size n : ℕ} (found : ℕ → UInt8) (hn : n ≤ data.length)
    (hsize : n ≤ size) : (realloc data size found).take n = data.take n := by
  refine List.ext_getElem (by simp [hn, hsize]) fun i hi hi' => ?_
  have hi : i < data.length := by
    rw [List.length_take] at hi'
    omega
  rw [List.getElem_take, List.getElem_take]
  simp [realloc, hi]

/-- What `memcpy` writes behind a part of the object extends this part. -/
theorem take_writeAt {data data' bytes : List UInt8} {off : ℕ}
    (h : writeAt data off bytes = some data') :
    data'.take (off + bytes.length) = data.take off ++ bytes ∧ data'.length = data.length := by
  obtain ⟨hle, heq⟩ := Option.ite_none_right_eq_some.1 h
  cases heq
  have hoff : (data.take off).length = off := by
    rw [List.length_take]
    omega
  refine ⟨?_, ?_⟩
  · rw [List.take_left' (by rw [List.length_append, hoff])]
  · simp only [List.length_append, hoff, List.length_drop]
    omega

/-- The end of a part of the object. -/
theorem readAt_of_take {data front bytes : List UInt8} {n : ℕ} (hn : n ≤ data.length)
    (h : data.take n = front ++ bytes) :
    readAt data (n - bytes.length) bytes.length = some bytes ∧
      data.take (n - bytes.length) = front := by
  have hlen : n = front.length + bytes.length := by
    rw [← List.length_append, ← h, List.length_take, min_eq_left hn]
  have hfront : n - bytes.length = front.length := by omega
  rw [hfront]
  refine ⟨?_, ?_⟩
  · rw [readAt, if_pos (by omega), List.take_drop, ← hlen, h, List.drop_left]
  · have hfront := congrArg (List.take front.length) h
    rwa [List.take_take, min_eq_left (by omega), List.take_left] at hfront

/-! ### Byte order -/

/-- The byte order of a machine. -/
inductive ByteOrder where
  | little
  | big
  deriving DecidableEq, Repr

/-- The `n` bytes of a number, the lowest one first. -/
def leBytes : ℕ → ℕ → List UInt8
  | 0, _ => []
  | n + 1, x => UInt8.ofNat x :: leBytes n (x / 256)

/-- The number with the given bytes, the lowest one first. -/
def ofLeBytes : List UInt8 → ℕ
  | [] => 0
  | b :: l => b.toNat + 256 * ofLeBytes l

/-- The `n` bytes of a number, the highest one first: network order. -/
def beBytes (n x : ℕ) : List UInt8 := (leBytes n x).reverse

@[simp] theorem length_leBytes (n x : ℕ) : (leBytes n x).length = n := by
  induction n generalizing x with
  | zero => rfl
  | succ n ih => rw [leBytes, List.length_cons, ih]

@[simp] theorem length_beBytes (n x : ℕ) : (beBytes n x).length = n := by
  rw [beBytes, List.length_reverse, length_leBytes]

theorem ofLeBytes_leBytes {n x : ℕ} (h : x < 256 ^ n) : ofLeBytes (leBytes n x) = x := by
  induction n generalizing x with
  | zero => simp_all [leBytes, ofLeBytes]
  | succ n ih =>
    have hdiv : x / 256 < 256 ^ n := by
      rw [Nat.div_lt_iff_lt_mul (by decide), ← pow_succ]
      exact h
    rw [leBytes, ofLeBytes, ih hdiv, UInt8.toNat_ofNat']
    omega

theorem leBytes_ofLeBytes (l : List UInt8) : leBytes l.length (ofLeBytes l) = l := by
  induction l with
  | nil => rfl
  | cons b l ih =>
    have hb := b.toNat_lt
    have hdiv : (b.toNat + 256 * ofLeBytes l) / 256 = ofLeBytes l := by omega
    have hmod : UInt8.ofNat (b.toNat + 256 * ofLeBytes l) = b := by
      refine UInt8.toNat_inj.1 ?_
      rw [UInt8.toNat_ofNat']
      omega
    rw [List.length_cons, ofLeBytes, leBytes, hdiv, hmod, ih]

theorem ofLeBytes_lt (l : List UInt8) : ofLeBytes l < 256 ^ l.length := by
  induction l with
  | nil => exact Nat.one_pos
  | cons b l ih =>
    have hb := b.toNat_lt
    rw [ofLeBytes, List.length_cons, pow_succ]
    omega

/-- `bswap_16`, `bswap_32`, `bswap_64` -/
def bswap (n x : ℕ) : ℕ := ofLeBytes (beBytes n x)

theorem leBytes_bswap (n x : ℕ) : leBytes n (bswap n x) = beBytes n x := by
  have h := leBytes_ofLeBytes (beBytes n x)
  rwa [length_beBytes] at h

namespace ByteOrder

/-- The object of a number of `n` bytes. -/
def store (order : ByteOrder) (n x : ℕ) : List UInt8 :=
  match order with
  | little => leBytes n x
  | big => beBytes n x

/-- The number in an object. -/
def load (order : ByteOrder) (bytes : List UInt8) : ℕ :=
  match order with
  | little => ofLeBytes bytes
  | big => ofLeBytes bytes.reverse

/-- Conversion of a number of `n` bytes from the order of the machine to network order, and back. -/
def hton (order : ByteOrder) (n x : ℕ) : ℕ :=
  match order with
  | little => bswap n x
  | big => x

@[simp] theorem length_store (order : ByteOrder) (n x : ℕ) : (order.store n x).length = n := by
  cases order with
  | little => exact length_leBytes n x
  | big => exact length_beBytes n x

/-- **A converted number is stored in network order.** -/
theorem store_hton (order : ByteOrder) (n x : ℕ) :
    order.store n (order.hton n x) = beBytes n x := by
  cases order with
  | little => exact leBytes_bswap n x
  | big => rfl

theorem hton_load_eq (order : ByteOrder) (bytes : List UInt8) :
    order.hton bytes.length (order.load bytes) = ofLeBytes bytes.reverse := by
  cases order with
  | little => rw [hton, load, bswap, beBytes, leBytes_ofLeBytes]
  | big => rfl

/-- **A number in network order** is read and converted back. -/
theorem hton_load (order : ByteOrder) {n x : ℕ} (h : x < 256 ^ n) :
    order.hton n (order.load (beBytes n x)) = x := by
  have hload := order.hton_load_eq (beBytes n x)
  rwa [length_beBytes, beBytes, List.reverse_reverse, ofLeBytes_leBytes h] at hload

end ByteOrder

end Memory

end Timpani
