import Mathlib.Data.List.Basic

/-!
# Byte strings

The native code handles text as bytes: a `std::string`, a `string_view` or a
line of a file need not be valid UTF-8.

* `Str`: a byte string;
* `str`: the bytes of a literal;
* `cStr`: what `const char *` shows of a buffer.
-/

namespace Magisk.Base

/-- A byte string. -/
abbrev Str := List UInt8

/-- The bytes of a literal of the source. -/
def str (s : String) : Str := s.toList.flatMap String.utf8EncodeChar

/-- `s.data()` read as a C string: it ends before the first NUL. -/
def cStr (s : Str) : Str := s.takeWhile (· ≠ 0)

/-- The code of an ASCII character. -/
def chr (c : Char) : UInt8 := c.toNat.toUInt8

/-- `isalnum` in the C locale. -/
def isAlnum (c : UInt8) : Bool :=
  (chr '0' ≤ c && c ≤ chr '9') || (chr 'A' ≤ c && c ≤ chr 'Z') || (chr 'a' ≤ c && c ≤ chr 'z')

end Magisk.Base
