import LoxScript.Text.Quoted
import LoxScript.Token
import LoxScript.Token.Numeral

/-!
# From bytes to tokens

A script is cut from the front into pieces: a blank, a comment or a token.  `piece` decides from the
first byte what the piece is and how far it reaches; `scanFrom` cuts piece after piece and keeps
count of the lines.  A piece is never empty, so the scan ends.

A comment runs from `//` to the end of its line.  A string runs to the next double quote that no
backslash hides, over line breaks if need be.  Names and reserved words are runs of letters, digits
and underscores that start with no digit.
-/

namespace LoxScript

/-- Why a script cannot be cut into tokens. -/
inductive LexError.Cause where
  /-- A string that is not closed before the end of the script. -/
  | unterminated
  /-- A numeral that is no number. -/
  | badNumeral (text : Bytes)
  /-- A character that starts no token. -/
  | illegal (c : Char)
  deriving DecidableEq

/-- A place at which a script cannot be cut into tokens. -/
structure LexError where
  /-- The line on which the offending piece starts. -/
  line : Int
  cause : LexError.Cause
  deriving DecidableEq

namespace LexError

/-- The character at which the offending piece starts. -/
def char (e : LexError) : Char :=
  match e.cause with
  | .unterminated => '"'
  | .badNumeral text => Char.ofNat (text.headD 0).toNat
  | .illegal c => c

/-- Could more input mend the error?  Only an open string can still be closed. -/
def isUnterminated (e : LexError) : Bool :=
  e.cause = .unterminated

/-- What is wrong, without the place. -/
def detail (e : LexError) : Bytes :=
  match e.cause with
  | .unterminated => utf8 "unterminated string"
  | .badNumeral text => utf8 "invalid number literal " ++ quote text
  | .illegal c => utf8 "unexpected character " ++ quoteChar c

/-- The message for the reader of the script. -/
def message (e : LexError) : Bytes :=
  utf8 "[line " ++ Bytes.ofInt e.line ++ utf8 "] Error: " ++ e.detail

end LexError

namespace Scan

/-- The mark at both ends of a string. -/
def quoteMark : UInt8 := 34

/-- The byte that gives the next one in a string another meaning. -/
def backslash : UInt8 := 92

/-- The byte that starts a comment when it stands twice. -/
def slash : UInt8 := 47

/-- Is the byte white space between tokens? -/
def isGap (b : UInt8) : Bool :=
  b == 32 || b == 9 || b == 13 || b == Bytes.newline

/-- Can the byte stand in a name after its first byte? -/
def isWordByte (b : UInt8) : Bool :=
  Bytes.isLetter b || Bytes.isDigit b

/-- How many bytes follow an opening quote up to and with the closing one.  A backslash hides the
byte after it. -/
def closing? : Bytes → Option Nat
  | [] => none
  | b :: rest =>
    if b = quoteMark then some 1
    else if b = backslash then
      match rest with
      | [] => none
      | _ :: rest => (closing? rest).map (· + 2)
    else (closing? rest).map (· + 1)

/-- What a backslash and the byte after it stand for.  An unknown pair stands for itself. -/
def escape (b : UInt8) : Bytes :=
  if b = quoteMark ∨ b = backslash then [b]
  else if b = Bytes.ofAscii 'n' then [Bytes.newline]
  else if b = Bytes.ofAscii 't' then [9]
  else [backslash, b]

/-- The string denoted by what stands between two quotes. -/
def unescape : Bytes → Bytes
  | [] => []
  | b :: rest =>
    if b = backslash then
      match rest with
      | [] => [b]
      | e :: rest => escape e ++ unescape rest
    else b :: unescape rest

/-- A piece of a script, apart from its first byte. -/
structure Piece where
  /-- How many bytes of the piece follow its first one. -/
  size : Nat
  /-- The token that the piece is; blanks and comments are none. -/
  token : Option (Kind × Literal)
  deriving DecidableEq

/-- The piece at the front of a script with first byte `b`. -/
def piece (b : UInt8) (rest : Bytes) : Except LexError.Cause Piece :=
  if isGap b then .ok ⟨0, none⟩
  else if b = slash ∧ rest.head? = some slash then
    .ok ⟨(rest.takeWhile (· ≠ Bytes.newline)).length, none⟩
  else if b = quoteMark then
    match closing? rest with
    | some n => .ok ⟨n, some (.string, .string (unescape (rest.take (n - 1))))⟩
    | none => .error .unterminated
  else if Bytes.isDigit b then
    let n := Numeral.extent rest
    let text := b :: rest.take n
    match Numeral.value? text with
    | some x => .ok ⟨n, some (.number, .number x)⟩
    | none => .error (.badNumeral text)
  else if Bytes.isLetter b then
    let word := rest.takeWhile isWordByte
    .ok ⟨word.length, some (.ofWord (b :: word), .nil)⟩
  else
    match Sign.front? (b :: rest) with
    | some s => .ok ⟨s.text.length - 1, some (.sign s, .nil)⟩
    | none => .error (.illegal ((Glyph.front? (b :: rest)).getD Glyph.replacement))

end Scan

open Scan in
/-- The tokens of a script whose first line has the given number, with one end of input after them.
The first piece that is no token ends the scan with an error. -/
def scanFrom (line : Int) (text : Bytes) : Except LexError (List Token) :=
  match text with
  | [] => .ok [Token.atEnd line]
  | b :: rest =>
    match piece b rest with
    | .error cause => .error ⟨line, cause⟩
    | .ok p =>
      let lexeme := b :: rest.take p.size
      match scanFrom (line + lexeme.count Bytes.newline) (rest.drop p.size) with
      | .error e => .error e
      | .ok tokens =>
        match p.token with
        | none => .ok tokens
        | some (kind, literal) => .ok (⟨kind, lexeme, literal, line⟩ :: tokens)
termination_by text.length
decreasing_by
  rw [List.length_drop, List.length_cons]
  omega

/-- The tokens of a script, which starts on line 1. -/
def scan (source : Bytes) : Except LexError (List Token) :=
  scanFrom 1 source

end LoxScript
