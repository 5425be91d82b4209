import LoxScript.Text.Glyph

/-!
# A place in a YAML text

Reading goes through the characters of a text and knows at every place its line and column, both
counted from zero.  A mistake is reported with the line on which the construct began and the line on
which it was noticed.
-/

namespace LoxScript.Yaml

/-- What is wrong with a text. -/
inductive Problem where
  | invalidBytes
  | controlCharacter
  | cannotStartToken
  | tabIndentation
  | mappingNotAllowed
  | entryNotAllowed
  | missingColon
  | endOfStream
  | unknownEscape
  | badEscapeDigits
  | badEscapeCode
  | expectedSequenceEnd
  | expectedMappingEnd
  | expectedKey
  | expectedEntry
  | expectedContent
  | expectedDocument
  | unknownAnchor (name : Bytes)
  /-- A feature of the format that settings do not use. -/
  | unsupported
  deriving DecidableEq

/-- The problem in words. -/
def Problem.text : Problem → Bytes
  | invalidBytes => utf8 "invalid leading UTF-8 octet"
  | controlCharacter => utf8 "control characters are not allowed"
  | cannotStartToken => utf8 "found character that cannot start any token"
  | tabIndentation => utf8 "found a tab character that violates indentation"
  | mappingNotAllowed => utf8 "mapping values are not allowed in this context"
  | entryNotAllowed => utf8 "block sequence entries are not allowed in this context"
  | missingColon => utf8 "could not find expected ':'"
  | endOfStream => utf8 "found unexpected end of stream"
  | unknownEscape => utf8 "found unknown escape character"
  | badEscapeDigits => utf8 "did not find expected hexdecimal number"
  | badEscapeCode => utf8 "found invalid Unicode character escape code"
  | expectedSequenceEnd => utf8 "did not find expected ',' or ']'"
  | expectedMappingEnd => utf8 "did not find expected ',' or '\x7d'"
  | expectedKey => utf8 "did not find expected key"
  | expectedEntry => utf8 "did not find expected '-' indicator"
  | expectedContent => utf8 "did not find expected node content"
  | expectedDocument => utf8 "did not find expected <document start>"
  | unknownAnchor name => utf8 "unknown anchor '" ++ name ++ utf8 "' referenced"
  | unsupported => utf8 "unsupported YAML"

/-- Is the problem one of spelling rather than of structure? -/
def Problem.isLexical : Problem → Bool
  | cannotStartToken | tabIndentation | mappingNotAllowed | entryNotAllowed | missingColon
  | endOfStream | unknownEscape | badEscapeDigits | badEscapeCode => true
  | _ => false

/-- A mistake in a text. -/
structure Error where
  problem : Problem
  /-- The line on which the construct at fault began. -/
  context : Nat
  /-- The line on which the mistake was noticed. -/
  line : Nat
  deriving DecidableEq

/-- The message for a mistake.  The construct's line is named, or the mistake's if the construct
began on the first; a mistake of structure is placed one line higher than one of spelling, and the
top of the text is not named. -/
def Error.message (e : Error) : Bytes :=
  let base := if e.context ≠ 0 then e.context else e.line
  let shown := if base ≠ 0 ∧ e.problem.isLexical then base + 1 else base
  let place := match e.problem with
    | .unknownAnchor _ | .invalidBytes | .controlCharacter => []
    | _ => if shown = 0 then [] else utf8 "line " ++ Bytes.ofNat shown ++ utf8 ": "
  utf8 "yaml: " ++ place ++ e.problem.text

/-- A place in a text and what comes after it. -/
structure Cursor where
  line : Nat
  column : Nat
  rest : List Char

/-- A step of reading. -/
abbrev Reader := StateT Cursor (Except Error)

namespace Reader

/-- Gives up at the current place, in a construct that began on the given line. -/
def failIn {α : Type} (context : Nat) (problem : Problem) : Reader α := do
  throw ⟨problem, context, (← get).line⟩

/-- Gives up at the current place. -/
def failHere {α : Type} (problem : Problem) : Reader α := do
  failIn (← get).line problem

/-- The next character. -/
def peek : Reader (Option Char) := do
  return (← get).rest.head?

/-- Passes over a character. -/
def advance : Reader Unit :=
  modify fun c =>
    match c.rest with
    | [] => c
    | '\n' :: rest => ⟨c.line + 1, 0, rest⟩
    | _ :: rest => ⟨c.line, c.column + 1, rest⟩

/-- Passes over characters of the current line. -/
def move (n : Nat) : Reader Unit :=
  modify fun c => ⟨c.line, c.column + n, c.rest.drop n⟩

/-- Is the character a space or a tab? -/
def isBlank (c : Char) : Bool :=
  c = ' ' || c = '\t'

/-- Is there a blank, a line break or nothing at the front? -/
def atGap : List Char → Bool
  | [] => true
  | c :: _ => isBlank c || c = '\n'

/-- Does the character stand at the front, with a gap after it? -/
def isMark (mark : Char) : List Char → Bool
  | c :: rest => c = mark && atGap rest
  | [] => false

/-- Passes over the blanks that follow. -/
def skipBlanks : Reader Unit := do
  move ((← get).rest.takeWhile isBlank).length

/-- Passes over blanks, line breaks and comments, at most `fuel` of them.  Outside of brackets a tab
does not count as a blank at the beginning of a line. -/
def skipGap (inFlow : Bool) : Nat → Bool → Reader Unit
  | 0, _ => pure ()
  | fuel + 1, tabs => do
    move ((← get).rest.takeWhile fun c => c = ' ' || (tabs && c = '\t')).length
    match ← peek with
    | some '#' =>
      move ((← get).rest.takeWhile (· ≠ '\n')).length
      skipGap inFlow fuel tabs
    | some '\n' =>
      advance
      skipGap inFlow fuel inFlow
    | _ => pure ()

/-- Goes to the next character that belongs to a node. -/
def toNext (inFlow : Bool) (tabs : Bool) : Reader Unit := do
  skipGap inFlow ((← get).rest.length + 1) tabs

end Reader

end LoxScript.Yaml
