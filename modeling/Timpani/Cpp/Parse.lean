import Timpani.Cpp.Text
import Mathlib.Algebra.Order.Ring.Int
import Mathlib.Algebra.Order.Ring.Nat
import Mathlib.Data.List.DropRight
import Mathlib.Data.List.TakeWhile

/-!
# Reading text

What C++ code uses to take a string apart: `std::getline` in a loop, trimming with
`find_first_not_of` and `find_last_not_of`, `std::stoi`, and `std::stoull` for hexadecimal numbers.
The number parsers are lenient: `std::stoi` skips blanks and a sign, reads as many digits as there are
and ignores what follows.  It throws where there is no digit, and where the value is no `int`.

* `getlines_append`, `getlines_singleton`, `getlines_flatMap` : the pieces between separators;
* `trim_eq_self` : nothing is trimmed inside;
* `stoi_eq_ok_iff` : what `std::stoi` accepts;
* `stoi_digits` : digits are read as their value;
* `stoi_intText` : a number that was printed is read back;
* `stoull16_eq_ok_iff` : what `std::stoull` reads behind `0x`.
-/

namespace Timpani

/-! ### Pieces -/

/-- The strings `std::getline(stream, piece, sep)` returns one after the other.  A separator at the
end does not start another piece. -/
def getlines (sep : UInt8) (s : Text) : List Text := go [] s
where
  go (piece : Text) : Text → List Text
    | [] => if piece = [] then [] else [piece]
    | b :: s => if b = sep then piece :: go [] s else go (piece ++ [b]) s

section Getlines

variable {sep : UInt8} {l s piece : Text}

@[simp] theorem getlines_nil : getlines sep [] = [] := rfl

theorem go_append (hl : sep ∉ l) :
    getlines.go sep piece (l ++ s) = getlines.go sep (piece ++ l) s := by
  induction l generalizing piece with
  | nil => simp
  | cons b l ih =>
    have hb : b ≠ sep := fun h => hl (h ▸ List.mem_cons_self)
    rw [List.cons_append, getlines.go, if_neg hb, ih fun h => hl (List.mem_cons_of_mem _ h)]
    simp

/-- The first piece. -/
theorem getlines_append (hl : sep ∉ l) : getlines sep (l ++ sep :: s) = l :: getlines sep s := by
  rw [getlines, go_append hl, getlines.go, if_pos rfl, List.nil_append]
  rfl

/-- The last piece. -/
theorem getlines_singleton (hl : sep ∉ l) (hne : l ≠ []) : getlines sep l = [l] := by
  have h : getlines.go sep [] (l ++ []) = getlines.go sep ([] ++ l) [] := go_append hl
  rw [List.append_nil, List.nil_append] at h
  rw [getlines, h, getlines.go, if_neg hne]

/-- Text that is written line by line is read line by line. -/
theorem getlines_flatMap {lines : List Text} (h : ∀ line ∈ lines, sep ∉ line) :
    getlines sep (lines.flatMap (· ++ [sep])) = lines := by
  induction lines with
  | nil => rfl
  | cons line lines ih =>
    rw [List.flatMap_cons, List.append_assoc, List.singleton_append,
      getlines_append (h line List.mem_cons_self),
      ih fun l hl => h l (List.mem_cons_of_mem _ hl)]

theorem getlines_append_flatMap {pieces : List Text} (hl : sep ∉ l) (hne : l ≠ [])
    (h : ∀ piece ∈ pieces, sep ∉ piece ∧ piece ≠ []) :
    getlines sep (l ++ pieces.flatMap (sep :: ·)) = l :: pieces := by
  induction pieces generalizing l with
  | nil => rw [List.flatMap_nil, List.append_nil, getlines_singleton hl hne]
  | cons piece pieces ih =>
    obtain ⟨hpiece, hne'⟩ := h piece List.mem_cons_self
    rw [List.flatMap_cons, List.cons_append, getlines_append hl,
      ih hpiece hne' fun x hx => h x (List.mem_cons_of_mem _ hx)]

end Getlines

example : getlines 44 (text "1,,2,") = [text "1", [], text "2"] := by decide

/-! ### Trimming -/

/-- `s.erase(0, s.find_first_not_of(blanks))` and `s.erase(s.find_last_not_of(blanks) + 1)`. -/
def trim (blanks s : Text) : Text :=
  (s.dropWhile (· ∈ blanks)).rdropWhile (· ∈ blanks)

section Trim

variable {blanks s l : Text} {a b : UInt8}

@[simp] theorem trim_nil : trim blanks [] = [] := by simp [trim]

theorem trim_append (hl : ∀ x ∈ l, x ∈ blanks) : trim blanks (l ++ s) = trim blanks s := by
  unfold trim
  rw [List.dropWhile_append_of_pos fun x hx => decide_eq_true (hl x hx)]

/-- Nothing is trimmed of a text with other characters at both ends. -/
theorem trim_eq_self (hhead : ∀ a, s.head? = some a → a ∉ blanks)
    (hlast : ∀ b, s.getLast? = some b → b ∉ blanks) : trim blanks s = s := by
  have hdrop : s.dropWhile (· ∈ blanks) = s := by
    cases s with
    | nil => rfl
    | cons a s => exact List.dropWhile_cons_of_neg (by simpa using hhead a rfl)
  unfold trim
  rw [hdrop, List.rdropWhile_eq_self_iff]
  intro hne
  simpa using hlast _ (List.getLast?_eq_getLast_of_ne_nil hne)

end Trim

/-! ### Numbers -/

/-- `isspace` -/
def isSpace (b : UInt8) : Bool := b = 32 || (9 ≤ b && b ≤ 13)

def isDigit (b : UInt8) : Bool := 48 ≤ b && b ≤ 57

/-- The value of a list of digits. -/
def decimalValue (digits : Text) : ℕ := digits.foldl (fun v b => 10 * v + (b.toNat - 48)) 0

/-- What the number parsers of the standard library throw. -/
inductive ConversionError where
  | invalidArgument
  | outOfRange
  deriving DecidableEq, Repr

/-- The values of an `int`. -/
def IsInt (n : ℤ) : Prop := -2 ^ 31 ≤ n ∧ n < 2 ^ 31

instance : DecidablePred IsInt := fun _ => inferInstanceAs (Decidable (_ ∧ _))

/-- The digits and the sign `std::stoi` reads. -/
def signed : Text → ℤ × Text
  | 43 :: s => (1, s.takeWhile isDigit)
  | 45 :: s => (-1, s.takeWhile isDigit)
  | s => (1, s.takeWhile isDigit)

/-- `std::stoi` -/
def stoi (s : Text) : Except ConversionError ℤ :=
  let (sign, digits) := signed (s.dropWhile isSpace)
  if digits = [] then .error .invalidArgument
  else if IsInt (sign * decimalValue digits) then .ok (sign * decimalValue digits)
  else .error .outOfRange

/-- `s` begins with the number `n` of type `int`: blanks, a sign, digits, and anything else. -/
def BeginsWithInt (s : Text) (n : ℤ) : Prop :=
  ∃ blanks sign digits rest : Text, s = blanks ++ (sign ++ (digits ++ rest)) ∧
    (∀ b ∈ blanks, isSpace b = true) ∧ sign ∈ [[], [43], [45]] ∧ digits ≠ [] ∧
    (∀ b ∈ digits, isDigit b = true) ∧ (∀ b, rest.head? = some b → isDigit b = false) ∧
    n = (if sign = [45] then -1 else 1) * decimalValue digits ∧ IsInt n

example : stoi (text " -7x") = .ok (-7) := by decide
example : stoi (text "2147483648") = .error .outOfRange := by decide

section Numbers

variable {b : UInt8} {s digits : Text} {n : ℕ}

theorem not_isSpace_of_isDigit (h : isDigit b = true) : isSpace b = false := by
  simp only [isDigit, Bool.and_eq_true, decide_eq_true_eq, UInt8.le_iff_toNat_le] at h
  have h48 : 48 ≤ b.toNat := h.1
  have hne : b ≠ 32 := fun heq => absurd h48 (heq ▸ by decide)
  have hgt : ¬ b.toNat ≤ 13 := by omega
  simp only [isSpace, hne, decide_false, Bool.false_or, Bool.and_eq_false_iff,
    decide_eq_false_iff_not, UInt8.le_iff_toNat_le]
  exact Or.inr hgt

theorem isDigit_toUInt8 {c : Char} (h : c.isDigit = true) :
    isDigit c.toUInt8 = true ∧ c.toUInt8.toNat = c.toNat := by
  simp only [Char.isDigit, Bool.and_eq_true, decide_eq_true_eq, ge_iff_le,
    UInt32.le_iff_toNat_le] at h
  have hnat : c.toUInt8.toNat = c.toNat := by
    change c.val.toNat % 256 = c.val.toNat
    exact Nat.mod_eq_of_lt (Nat.lt_of_le_of_lt h.2 (by decide))
  refine ⟨?_, hnat⟩
  simp only [isDigit, Bool.and_eq_true, decide_eq_true_eq, UInt8.le_iff_toNat_le, hnat]
  exact h

theorem isDigit_of_mem_natText (h : b ∈ natText n) : isDigit b = true := by
  obtain ⟨c, hc, rfl⟩ := List.mem_map.1 h
  exact (isDigit_toUInt8 (Nat.isDigit_of_mem_toDigits (by decide) (by decide) hc)).1

theorem natText_ne_nil : natText n ≠ [] :=
  mt List.map_eq_nil_iff.1 Nat.toDigits_ne_nil

theorem intText_ne_nil {n : ℤ} : intText n ≠ [] := by
  cases n with
  | ofNat n => exact natText_ne_nil
  | negSucc n => exact List.cons_ne_nil _ _

theorem of_mem_intText {n : ℤ} (h : b ∈ intText n) : b = 45 ∨ isDigit b = true := by
  cases n with
  | ofNat n => exact .inr (isDigit_of_mem_natText h)
  | negSucc n =>
    obtain rfl | h := List.mem_cons.1 h
    · exact .inl rfl
    · exact .inr (isDigit_of_mem_natText h)

@[simp] theorem decimalValue_natText : decimalValue (natText n) = n := by
  have hfold : ∀ (l : List Char) (v : ℕ), (∀ c ∈ l, c.isDigit = true) →
      (l.map Char.toUInt8).foldl (fun v b => 10 * v + (b.toNat - 48)) v =
        Nat.ofDigitChars 10 l v := by
    intro l
    induction l with
    | nil => exact fun v _ => Nat.ofDigitChars_nil.symm
    | cons c l ih =>
      intro v hl
      rw [List.map_cons, List.foldl_cons, ih _ fun x hx => hl x (List.mem_cons_of_mem _ hx),
        Nat.ofDigitChars_cons, (isDigit_toUInt8 (hl c List.mem_cons_self)).2]
      rfl
  have hdigits : ∀ c ∈ Nat.toDigits 10 n, c.isDigit = true := fun c hc =>
    Nat.isDigit_of_mem_toDigits (by decide) (by decide) hc
  exact (hfold _ 0 hdigits).trans Nat.ofDigitChars_ten_toDigits

theorem signed_of_isDigit (h : ∀ b, s.head? = some b → isDigit b = true) :
    signed s = (1, s.takeWhile isDigit) := by
  cases s with
  | nil => rfl
  | cons b s =>
    have hb := h b rfl
    unfold signed
    split
    · rename_i heq
      cases heq
      exact absurd hb (by decide)
    · rename_i heq
      cases heq
      exact absurd hb (by decide)
    · rfl

theorem exists_signed_eq (s : Text) : ∃ sign ∈ [[], [43], [45]], ∃ rest, s = sign ++ rest ∧
    signed s = (if sign = [45] then -1 else 1, rest.takeWhile isDigit) := by
  unfold signed
  split
  · rename_i s
    exact ⟨[43], by simp, s, rfl, by simp⟩
  · rename_i s
    exact ⟨[45], by simp, s, rfl, by simp⟩
  · exact ⟨[], by simp, s, rfl, by simp⟩

theorem takeWhile_isDigit {rest : Text} (hdigits : ∀ b ∈ digits, isDigit b = true)
    (hrest : ∀ b, rest.head? = some b → isDigit b = false) :
    (digits ++ rest).takeWhile isDigit = digits := by
  rw [List.takeWhile_append_of_pos hdigits]
  cases rest with
  | nil => simp
  | cons b rest =>
    rw [List.takeWhile_cons_of_neg (by simp [hrest b rfl]), List.append_nil]

/-- **What `std::stoi` reads.** -/
theorem stoi_eq_ok_iff {n : ℤ} : stoi s = .ok n ↔ BeginsWithInt s n := by
  constructor
  · intro h
    obtain ⟨sign, hsign, rest, hs, hread⟩ := exists_signed_eq (s.dropWhile isSpace)
    unfold stoi at h
    rw [hread] at h
    dsimp only at h
    rw [ite_eq_iff] at h
    obtain ⟨-, h⟩ | ⟨hempty, h⟩ := h
    · cases h
    rw [ite_eq_iff] at h
    obtain ⟨hint, h⟩ | ⟨-, h⟩ := h
    swap
    · cases h
    obtain rfl := Except.ok.inj h
    refine ⟨s.takeWhile isSpace, sign, rest.takeWhile isDigit, rest.dropWhile isDigit, ?_,
      fun b hb => List.mem_takeWhile_imp hb, hsign, hempty, fun b hb => List.mem_takeWhile_imp hb,
      fun b hb => ?_, rfl, hint⟩
    · rw [List.takeWhile_append_dropWhile, ← hs, List.takeWhile_append_dropWhile]
    · have hhead := List.head?_dropWhile_not isDigit rest
      rw [hb] at hhead
      simpa using hhead
  · rintro ⟨blanks, sign, digits, rest, rfl, hblanks, hsign, hne, hdigits, hrest, rfl, hint⟩
    have htake := takeWhile_isDigit hdigits hrest
    obtain ⟨d, digits', rfl⟩ := List.exists_cons_of_ne_nil hne
    have hd := hdigits d List.mem_cons_self
    have hread : signed ((blanks ++ (sign ++ (d :: digits' ++ rest))).dropWhile isSpace) =
        (if sign = [45] then -1 else 1, d :: digits') := by
      rw [List.dropWhile_append_of_pos hblanks]
      simp only [List.mem_cons, List.not_mem_nil, or_false] at hsign
      obtain rfl | rfl | rfl := hsign
      · rw [List.nil_append, List.cons_append,
          List.dropWhile_cons_of_neg (by simp [not_isSpace_of_isDigit hd]), signed_of_isDigit]
        · rw [← List.cons_append, htake]
          rfl
        · rintro b hb
          exact Option.some.inj hb ▸ hd
      · exact congrArg (Prod.mk 1) htake
      · exact congrArg (Prod.mk (-1)) htake
    unfold stoi
    rw [hread]
    dsimp only
    rw [if_neg hne, if_pos hint]

theorem BeginsWithInt.unique {m n : ℤ} (hm : BeginsWithInt s m) (hn : BeginsWithInt s n) :
    m = n :=
  Except.ok.inj ((stoi_eq_ok_iff.2 hm).symm.trans (stoi_eq_ok_iff.2 hn))

/-- Digits are read as their value. -/
theorem stoi_digits (hne : digits ≠ []) (hdigits : ∀ b ∈ digits, isDigit b = true) :
    stoi digits = if decimalValue digits < 2 ^ 31 then .ok (decimalValue digits)
      else .error .outOfRange := by
  have hhead : ∀ b, digits.head? = some b → isDigit b = true := fun b hb =>
    hdigits b (List.mem_of_mem_head? hb)
  have hdrop : digits.dropWhile isSpace = digits := by
    cases digits with
    | nil => rfl
    | cons b digits =>
      exact List.dropWhile_cons_of_neg (by simp [not_isSpace_of_isDigit (hhead b rfl)])
  have htake : digits.takeWhile isDigit = digits := List.takeWhile_eq_self_iff.2 hdigits
  unfold stoi
  rw [hdrop, signed_of_isDigit hhead, htake]
  dsimp only
  rw [if_neg hne, Int.one_mul]
  refine if_congr ?_ rfl rfl
  unfold IsInt
  omega

/-- **A number that was printed is read back.** -/
theorem stoi_intText {n : ℤ} (hn : IsInt n) : stoi (intText n) = .ok n := by
  unfold IsInt at hn
  cases n with
  | ofNat n =>
    rw [intText, stoi_digits natText_ne_nil fun _ => isDigit_of_mem_natText, decimalValue_natText,
      if_pos (by simp at hn; omega)]
    rfl
  | negSucc n =>
    have hread : signed ((intText (.negSucc n)).dropWhile isSpace) = (-1, natText (n + 1)) := by
      change (_, _) = (_, _)
      exact congrArg (Prod.mk (-1)) (List.takeWhile_eq_self_iff.2 fun _ => isDigit_of_mem_natText)
    unfold stoi
    rw [hread]
    dsimp only
    rw [if_neg natText_ne_nil, decimalValue_natText, if_pos]
    · exact congrArg _ (by omega)
    · unfold IsInt
      omega

end Numbers

/-! ### Hexadecimal numbers -/

/-- The value of a hexadecimal digit. -/
def hexDigit (b : UInt8) : Option ℕ :=
  if 48 ≤ b ∧ b ≤ 57 then some (b.toNat - 48)
  else if 97 ≤ b ∧ b ≤ 102 then some (b.toNat - 87)
  else if 65 ≤ b ∧ b ≤ 70 then some (b.toNat - 55)
  else none

/-- The hexadecimal digits behind the marker `0x`. -/
def hexRun (s : Text) : Text := (s.drop 2).takeWhile fun b => (hexDigit b).isSome

/-- The value of hexadecimal digits. -/
def hexValue (digits : Text) : ℕ :=
  (digits.filterMap hexDigit).foldl (fun v d => 16 * v + d) 0

/-- The value behind the marker fits into 64 bits. -/
def HexFits (s : Text) : Prop := hexValue (hexRun s) < 2 ^ 64

instance : DecidablePred HexFits := fun _ => inferInstanceAs (Decidable (_ < _))

/-- `std::stoull(s, nullptr, 16)` of a string that starts with `0x`: the digits behind the marker,
or just the leading `0` when there are none. -/
def stoull16 (s : Text) : Except ConversionError UInt64 :=
  if HexFits s then .ok (.ofNat (hexValue (hexRun s))) else .error .outOfRange

example : (stoull16 (text "0x1fz")).toOption = some 31 := by decide

theorem stoull16_eq_ok_iff {s : Text} {h : UInt64} (hs : HexFits s) :
    stoull16 s = .ok h ↔ h.toNat = hexValue (hexRun s) := by
  rw [stoull16, if_pos hs, Except.ok.injEq, ← UInt64.toNat_inj, UInt64.toNat_ofNat_of_lt' hs, eq_comm]

end Timpani
