import LoxScript.Text.Bytes

/-!
# Reading a byte string as characters

Where a message shows a character, or blanks are trimmed, a byte string is read as UTF-8.  Reading
never fails: a byte that starts no character is kept as a stray of its own, so nothing is lost and
`Glyph.encode` gives the bytes back.
-/

namespace LoxScript

/-- One step of reading a byte string as UTF-8: a character, or a byte that belongs to none. -/
inductive Glyph where
  /-- A well-formed character. -/
  | char (c : Char)
  /-- A byte at which no well-formed character starts. -/
  | stray (b : UInt8)
  deriving DecidableEq, Repr

namespace Glyph

/-- The bytes a glyph was read from. -/
def encode : Glyph → Bytes
  | .char c => String.utf8EncodeChar c
  | .stray b => [b]

/-- Is the byte a continuation byte, of the form `10xxxxxx`? -/
def isContinuation (b : UInt8) : Bool :=
  0x80 ≤ b && b < 0xC0

/-- The six payload bits of a continuation byte. -/
def payload (b : UInt8) : Nat :=
  b.toNat % 64

/-- The character whose UTF-8 encoding stands at the front of a text, if there is one.  Overlong
forms, surrogates and values past the last code point are no encodings. -/
def front? : Bytes → Option Char
  | [] => none
  | a :: rest =>
    if a < 0x80 then
      some (Char.ofNat a.toNat)
    else if a < 0xC2 then
      none
    else if a < 0xE0 then
      match rest with
      | b :: _ =>
        if isContinuation b then some (Char.ofNat (a.toNat % 32 * 64 + payload b)) else none
      | _ => none
    else if a < 0xF0 then
      match rest with
      | b :: c :: _ =>
        let v := a.toNat % 16 * 4096 + payload b * 64 + payload c
        if isContinuation b && isContinuation c && 0x800 ≤ v && !(0xD800 ≤ v && v ≤ 0xDFFF) then
          some (Char.ofNat v)
        else none
      | _ => none
    else if a < 0xF5 then
      match rest with
      | b :: c :: d :: _ =>
        let v := a.toNat % 8 * 262144 + payload b * 4096 + payload c * 64 + payload d
        if isContinuation b && isContinuation c && isContinuation d
            && 0x10000 ≤ v && v ≤ 0x10FFFF then
          some (Char.ofNat v)
        else none
      | _ => none
    else none

/-- The glyphs of a text whose first `skip` bytes have been read already. -/
def decodeFrom : Nat → Bytes → List Glyph
  | _, [] => []
  | skip + 1, _ :: rest => decodeFrom skip rest
  | 0, a :: rest =>
    match front? (a :: rest) with
    | some c => .char c :: decodeFrom (c.utf8Size - 1) rest
    | none => .stray a :: decodeFrom 0 rest

/-- A byte string as glyphs, in order. -/
def decode (text : Bytes) : List Glyph :=
  decodeFrom 0 text

/-- The character that is shown where no character can be read. -/
def replacement : Char := '\uFFFD'

end Glyph

/-- Is the text valid UTF-8?  Then each of its glyphs is a character. -/
def Bytes.isUtf8 (text : Bytes) : Bool :=
  (Glyph.decode text).all fun
    | .char _ => true
    | .stray _ => false

end LoxScript
