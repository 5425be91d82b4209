import LoxScript.Text.Glyph

/-!
# White space around a text

Lines typed at the prompt are judged with the white space around them removed.  White space is the
Unicode property of that name; a stray byte is never white space.
-/

namespace LoxScript

/-- Is the character white space? -/
def isBlank (c : Char) : Bool :=
  let n := c.toNat
  (9 ≤ n && n ≤ 13) || n == 0x20 || n == 0x85 || n == 0xA0 || n == 0x1680
    || (0x2000 ≤ n && n ≤ 0x200A) || n == 0x2028 || n == 0x2029 || n == 0x202F || n == 0x205F
    || n == 0x3000

/-- Is the glyph a white space character? -/
def Glyph.isBlank : Glyph → Bool
  | .char c => LoxScript.isBlank c
  | .stray _ => false

/-- The text without the white space at its two ends. -/
def Bytes.trim (text : Bytes) : Bytes :=
  let opened := (Glyph.decode text).dropWhile Glyph.isBlank
  (opened.reverse.dropWhile Glyph.isBlank).reverse.flatMap Glyph.encode

end LoxScript
