import LoxScript.Yaml.Cursor

/-!
# YAML scalars

A plain scalar ends before a colon or a comment that stands apart, and inside brackets also at a
comma or a bracket.  A quoted scalar ends at its closing quote.  Both may run over several lines;
then one line break counts as a space, and of several line breaks all but the first are kept.
-/

namespace LoxScript.Yaml

open Reader

/-- What a run of line breaks stands for. -/
def folded (breaks : Nat) : List Char :=
  if breaks = 1 then [' '] else List.replicate (breaks - 1) '\n'

/-- Passes over line breaks and the blanks after each, and counts the breaks.  A tab to the left of
the given column is a mistake. -/
def lineBreaks (context column : Nat) : Nat → Nat → Reader Nat
  | 0, count => pure count
  | fuel + 1, count => do
    match ← peek with
    | some '\n' =>
      advance
      let blanks := (← get).rest.takeWhile isBlank
      if (blanks.take column).contains '\t' then failIn context .tabIndentation
      move blanks.length
      lineBreaks context column fuel (count + 1)
    | _ => pure count

namespace Plain

/-- Does a plain scalar end here? -/
def ends (inFlow : Bool) : List Char → Bool
  | [] => true
  | c :: rest =>
    (c = ':' && atGap rest)
      || (inFlow && (c ∈ [',', '[', ']', '\x7b', '\x7d'] || (c = '?' && atGap rest)))

/-- The characters up to the next blank, line break or end of the scalar. -/
def word (inFlow : Bool) : List Char → List Char
  | [] => []
  | c :: rest =>
    if isBlank c || c = '\n' || ends inFlow (c :: rest) then [] else c :: word inFlow rest

/-- Reads a plain scalar after what has been read of it.  Outside of brackets its further lines must
not start to the left of the given column. -/
def readFrom (inFlow : Bool) (context column : Nat) : Nat → List Char → Reader (List Char)
  | 0, done => pure done
  | fuel + 1, done => do
    let w := word inFlow (← get).rest
    move w.length
    let done := done ++ w
    let here ← get
    let blanks := here.rest.takeWhile isBlank
    move blanks.length
    let breaks ← lineBreaks context (if inFlow then 0 else column) here.rest.length 0
    let there ← get
    let goesOn := !ends inFlow there.rest && there.rest.head? ≠ some '#'
      && (breaks = 0 || inFlow || column ≤ there.column)
    if goesOn then
      readFrom inFlow context column fuel (done ++ if breaks = 0 then blanks else folded breaks)
    else
      set here
      pure done

/-- Reads a plain scalar. -/
def read (inFlow : Bool) (column : Nat) : Reader (List Char) := do
  let c ← get
  readFrom inFlow c.line column (c.rest.length + 1) []

end Plain

namespace Quoted

/-- The characters with a letter of their own after a backslash. -/
def escapes : List (Char × Nat) :=
  [('0', 0), ('a', 7), ('b', 8), ('t', 9), ('\t', 9), ('n', 10), ('v', 11), ('f', 12), ('r', 13),
   ('e', 27), (' ', 32), ('"', 34), ('\'', 39), ('/', 47), ('\\', 92), ('N', 0x85), ('_', 0xA0),
   ('L', 0x2028), ('P', 0x2029)]

/-- How many hexadecimal digits follow a backslash and the given letter. -/
def codeLength? (c : Char) : Option Nat :=
  if c = 'x' then some 2 else if c = 'u' then some 4 else if c = 'U' then some 8 else none

/-- The value of a hexadecimal digit. -/
def hexDigit? (c : Char) : Option Nat :=
  if '0' ≤ c ∧ c ≤ '9' then some (c.toNat - 48)
  else if 'a' ≤ c ∧ c ≤ 'f' then some (c.toNat - 87)
  else if 'A' ≤ c ∧ c ≤ 'F' then some (c.toNat - 55)
  else none

/-- Reads a character given by its number. -/
def readCode (context length : Nat) : Reader Char := do
  let digits := (← get).rest.take length
  let value := digits.foldlM (fun n c => (hexDigit? c).map (16 * n + ·)) 0
  match value with
  | some n =>
    if digits.length < length then failIn context .badEscapeDigits
    else if h : n.isValidChar then
      move length
      pure (Char.ofNatAux n h)
    else failIn context .badEscapeCode
  | none => failIn context .badEscapeDigits

/-- Reads what follows a backslash.  A line break after it joins the two lines. -/
def readEscape (context : Nat) : Reader (List Char) := do
  match ← peek with
  | none => failIn context .endOfStream
  | some '\n' =>
    let breaks ← lineBreaks context 0 (← get).rest.length 0
    pure (List.replicate (breaks - 1) '\n')
  | some c =>
    advance
    match codeLength? c with
    | some n => return [← readCode context n]
    | none =>
      match escapes.lookup c with
      | some n => pure [Char.ofNat n]
      | none => failIn context .unknownEscape

/-- Reads a quoted scalar after what has been read of it, which is given from its end. -/
def readFrom (mark : Char) (context : Nat) : Nat → List Char → Reader (List Char)
  | 0, _ => failIn context .endOfStream
  | fuel + 1, done => do
    match ← peek with
    | none => failIn context .endOfStream
    | some c =>
      if c = mark then
        advance
        if mark = '\'' ∧ (← peek) = some mark then
          advance
          readFrom mark context fuel (mark :: done)
        else pure done.reverse
      else if c = '\\' ∧ mark = '"' then
        advance
        let chars ← readEscape context
        readFrom mark context fuel (chars.reverse ++ done)
      else if isBlank c || c = '\n' then
        let blanks := (← get).rest.takeWhile isBlank
        move blanks.length
        let breaks ← lineBreaks context 0 (← get).rest.length 0
        let chars := if breaks = 0 then blanks else folded breaks
        readFrom mark context fuel (chars.reverse ++ done)
      else
        advance
        readFrom mark context fuel (c :: done)

/-- Reads a quoted scalar from its opening quote on. -/
def read (mark : Char) : Reader (List Char) := do
  let c ← get
  advance
  readFrom mark c.line (c.rest.length + 1) []

end Quoted

end LoxScript.Yaml
