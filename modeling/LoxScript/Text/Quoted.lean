import LoxScript.Text.Glyph
import LoxScript.Text.Printable

/-!
# Quoted text

A text shown inside a message stands in quotes, and what would not be legible there is escaped: the
quote itself and the backslash, the control characters with a letter of their own, and everything
that is not printable by its number.  Which characters count as printable is a parameter of the
rule; `quote` and `quoteChar` take the Unicode table.
-/

namespace LoxScript

namespace Quoted

/-- The letter after the backslash for a control character that has one. -/
def controlLetter? (c : Char) : Option Char :=
  match c.toNat with
  | 7 => some 'a'
  | 8 => some 'b'
  | 9 => some 't'
  | 10 => some 'n'
  | 11 => some 'v'
  | 12 => some 'f'
  | 13 => some 'r'
  | _ => none

/-- The escape of a character by its number: two digits for the rest of ASCII, otherwise four, or
eight above the basic plane. -/
def byNumber (c : Char) : Bytes :=
  let n := c.toNat
  if n < 0x80 then utf8 "\\x" ++ Bytes.ofHex 2 n
  else if n < 0x10000 then utf8 "\\u" ++ Bytes.ofHex 4 n
  else utf8 "\\U" ++ Bytes.ofHex 8 n

/-- How a character is written between quotes of the given kind. -/
def writeChar (printable : Char → Bool) (mark c : Char) : Bytes :=
  if c = mark ∨ c = '\\' then utf8 "\\" ++ String.utf8EncodeChar c
  else if printable c then String.utf8EncodeChar c
  else
    match controlLetter? c with
    | some letter => utf8 "\\" ++ String.utf8EncodeChar letter
    | none => byNumber c

/-- How a glyph is written between quotes: a stray byte by its two hexadecimal digits. -/
def writeGlyph (printable : Char → Bool) (mark : Char) : Glyph → Bytes
  | .char c => writeChar printable mark c
  | .stray b => utf8 "\\x" ++ Bytes.ofHex 2 b.toNat

/-- A text in double quotes. -/
def write (printable : Char → Bool) (text : Bytes) : Bytes :=
  utf8 "\"" ++ (Glyph.decode text).flatMap (writeGlyph printable '"') ++ utf8 "\""

end Quoted

/-- A text in double quotes, with all that is not printable escaped. -/
def quote (text : Bytes) : Bytes :=
  Quoted.write isPrintable text

/-- A character in single quotes, escaped if it is not printable. -/
def quoteChar (c : Char) : Bytes :=
  utf8 "'" ++ Quoted.writeChar isPrintable '\'' c ++ utf8 "'"

end LoxScript
