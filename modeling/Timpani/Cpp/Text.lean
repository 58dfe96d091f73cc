import Mathlib.Data.Int.Notation
import Mathlib.Data.Nat.Notation

/-!
# Byte strings

`std::string` is a sequence of bytes.  Names, messages and map keys of the C++ sources are values
of `Text`; the order `std::map` and `std::set` give them is the lexicographic order of the bytes,
which is what `compare` computes on lists.
-/

namespace Timpani

/-- A `std::string`. -/
abbrev Text := List UInt8

instance : LawfulBEq Text := inferInstance

/-- The bytes of a string literal. -/
def text (s : String) : Text := s.toUTF8.data.toList

/-- `std::to_string` of an unsigned number. -/
def natText (n : ℕ) : Text := (Nat.toDigits 10 n).map Char.toUInt8

/-- `std::to_string` of an `int`. -/
def intText : ℤ → Text
  | .ofNat n => natText n
  | .negSucc n => text "-" ++ natText (n + 1)

example : intText (-12) = text "-12" := by decide

end Timpani
