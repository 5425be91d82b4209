/-!
# Byte strings

A script, a string value and everything that is printed are sequences of bytes.  Nothing asks them
to be valid UTF-8, so the library works on lists of bytes throughout, and literal texts are brought
there by `utf8`.
-/

namespace LoxScript

/-- A text as it is read and written: any sequence of bytes. -/
abbrev Bytes := List UInt8

/-- The UTF-8 bytes of a string of characters. -/
def utf8 (s : String) : Bytes :=
  s.toList.flatMap String.utf8EncodeChar

namespace Bytes

/-- The byte of an ASCII character. -/
def ofAscii (c : Char) : UInt8 :=
  c.toNat.toUInt8

/-- The byte that ends a line. -/
def newline : UInt8 := 10

/-- A natural number in decimal, without leading zeros. -/
def ofNat (n : Nat) : Bytes :=
  (Nat.toDigits 10 n).map ofAscii

/-- An integer in decimal, with a minus sign when it is negative. -/
def ofInt : Int → Bytes
  | .ofNat n => ofNat n
  | .negSucc n => utf8 "-" ++ ofNat (n + 1)

/-- A number in lower-case hexadecimal, filled up with zeros to at least the given width. -/
def ofHex (width n : Nat) : Bytes :=
  let digits := (Nat.toDigits 16 n).map ofAscii
  List.replicate (width - digits.length) (ofAscii '0') ++ digits

/-- Texts joined by line breaks, with none after the last. -/
def joinLines (lines : List Bytes) : Bytes :=
  [newline].intercalate lines

/-- A text followed by a line break. -/
def line (text : Bytes) : Bytes :=
  text ++ [newline]

/-- Is the byte a decimal digit? -/
def isDigit (b : UInt8) : Bool :=
  48 ≤ b && b ≤ 57

/-- Is the byte an ASCII letter or the underscore? -/
def isLetter (b : UInt8) : Bool :=
  (97 ≤ b && b ≤ 122) || (65 ≤ b && b ≤ 90) || b == 95

end Bytes

end LoxScript
