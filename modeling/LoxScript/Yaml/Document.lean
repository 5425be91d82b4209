import LoxScript.Yaml.Node
import LoxScript.Yaml.Scalar

/-!
# YAML documents

The part of the format that settings are written in: scalars, sequences and mappings, each in block
or in bracket form, comments, and the marks between documents.  Only the first document of a text is
read.  Anchors, tags, block scalars and complex keys are not part of it.

The numbers that the functions take bound the nesting and the number of entries; twice the length of
the text is enough.
-/

namespace LoxScript.Yaml

open Reader

/-- A scalar as a node. -/
def scalarNode (line : Nat) (style : Style) (chars : List Char) : Node :=
  .scalar (line + 1) style (chars.flatMap String.utf8EncodeChar)

/-- The characters of an anchor's name. -/
def isAnchorChar (c : Char) : Bool :=
  c.isAlphanum || c = '-' || c = '_'

mutual

/-- Reads a scalar or a node in brackets.  Outside of brackets, further lines of a plain scalar must
not start to the left of the given column. -/
def readAtom (inFlow : Bool) (column : Nat) : Nat → Reader Node
  | 0 => failHere .unsupported
  | fuel + 1 => do
    let c ← get
    match c.rest with
    | [] => failHere .expectedContent
    | '"' :: _ => return scalarNode c.line .quoted (← Quoted.read '"')
    | '\'' :: _ => return scalarNode c.line .quoted (← Quoted.read '\'')
    | '[' :: _ =>
      advance
      readSequence c.line [] fuel
    | '\x7b' :: _ =>
      advance
      readMapping c.line [] fuel
    | '*' :: rest =>
      failHere (.unknownAnchor ((rest.takeWhile isAnchorChar).flatMap String.utf8EncodeChar))
    | first :: rest =>
      if first ∈ ['\t', '@', '\x60', '%'] then failHere .cannotStartToken
      else if first ∈ [']', '\x7d', ','] then failHere .expectedContent
      else if first ∈ ['&', '!', '|', '>'] then failHere .unsupported
      else if first = '-' ∧ atGap rest then failHere .entryNotAllowed
      else if first = '?' ∧ atGap rest then failHere .unsupported
      else if first = ':' ∧ atGap rest then failHere .mappingNotAllowed
      else return scalarNode c.line .plain (← Plain.read inFlow column)

/-- Reads the rest of a sequence in brackets; its items so far are given from the last. -/
def readSequence (line : Nat) (items : List Node) : Nat → Reader Node
  | 0 => failHere .unsupported
  | fuel + 1 => do
    toNext true true
    match ← peek with
    | some ']' =>
      advance
      pure (.sequence (line + 1) items.reverse)
    | none => failIn line .expectedSequenceEnd
    | some _ =>
      let item ← readPair fuel
      match ← peek with
      | some ',' =>
        advance
        readSequence line (item :: items) fuel
      | some ']' => readSequence line (item :: items) fuel
      | _ => failIn line .expectedSequenceEnd

/-- Reads an item of a sequence in brackets, which may be a mapping of one key.  The colon after a
key must be on the line on which the key starts. -/
def readPair : Nat → Reader Node
  | 0 => failHere .unsupported
  | fuel + 1 => do
    let start := (← get).line
    let item ← readAtom true 0 fuel
    toNext true true
    let here ← get
    if here.rest.head? = some ':' ∧ here.line = start then
      advance
      let value ← readFlowValue ']' fuel
      pure (.mapping (start + 1) [(item, value)])
    else pure item

/-- Reads the value after a colon in brackets; there may be none. -/
def readFlowValue (closing : Char) : Nat → Reader Node
  | 0 => failHere .unsupported
  | fuel + 1 => do
    toNext true true
    let c ← get
    match c.rest with
    | [] => pure (.absent (c.line + 1))
    | first :: _ =>
      if first = ',' ∨ first = closing then pure (.absent (c.line + 1))
      else
        let value ← readAtom true 0 fuel
        toNext true true
        pure value

/-- Reads the rest of a mapping in brackets; its entries so far are given from the last. -/
def readMapping (line : Nat) (entries : List (Node × Node)) : Nat → Reader Node
  | 0 => failHere .unsupported
  | fuel + 1 => do
    toNext true true
    match ← peek with
    | some '\x7d' =>
      advance
      pure (.mapping (line + 1) entries.reverse)
    | none => failIn line .expectedMappingEnd
    | some _ =>
      let start := (← get).line
      let key ← readAtom true 0 fuel
      toNext true true
      let here ← get
      let value ←
        if here.rest.head? = some ':' ∧ here.line = start then do
          advance
          readFlowValue '\x7d' fuel
        else pure (.absent (here.line + 1))
      match ← peek with
      | some ',' =>
        advance
        readMapping line ((key, value) :: entries) fuel
      | some '\x7d' => readMapping line ((key, value) :: entries) fuel
      | _ => failIn line .expectedMappingEnd

end

mutual

/-- Reads a node that starts at the current place.  Where a mapping or a sequence in block form may
not start, only a scalar or a node in brackets is read. -/
def readBlock (column : Nat) (nested : Bool) : Nat → Reader Node
  | 0 => failHere .unsupported
  | fuel + 1 => do
    let start ← get
    if isMark '-' start.rest then
      if nested then readEntries start.column start.line [] fuel else failHere .entryNotAllowed
    else
      let atom ← readAtom false column fuel
      skipBlanks
      let here ← get
      if isMark ':' here.rest then
        if nested && here.line = start.line then readKeys start.column start.line atom [] fuel
        else failHere .mappingNotAllowed
      else pure atom
termination_by structural fuel => fuel

/-- Reads what belongs to a dash or a key at the given column.  On the same line a nested block may
start only after a dash. -/
def readBelow (column : Nat) (afterDash : Bool) : Nat → Reader Node
  | 0 => failHere .unsupported
  | fuel + 1 => do
    skipBlanks
    let here ← get
    if here.rest = [] ∨ here.rest.head? = some '\n' ∨ here.rest.head? = some '#' then
      toNext false true
      let there ← get
      if there.rest = [] then
        set here
        pure (.absent (here.line + 1))
      else if column < there.column then readBlock (column + 1) true fuel
      else if !afterDash && there.column = column && isMark '-' there.rest then
        readEntries column there.line [] fuel
      else
        set here
        pure (.absent (here.line + 1))
    else readBlock (column + 1) afterDash fuel
termination_by structural fuel => fuel

/-- Reads a sequence in block form from a dash on; its items so far are given from the last. -/
def readEntries (column line : Nat) (items : List Node) : Nat → Reader Node
  | 0 => failHere .unsupported
  | fuel + 1 => do
    advance
    let item ← readBelow column true fuel
    let after ← get
    toNext false true
    let next ← get
    if next.rest = [] ∨ next.column < column then
      set after
      pure (.sequence (line + 1) (item :: items).reverse)
    else if next.line = after.line ∨ column < next.column then failIn line .expectedEntry
    else if isMark '-' next.rest then readEntries column line (item :: items) fuel
    else
      set after
      pure (.sequence (line + 1) (item :: items).reverse)
termination_by structural fuel => fuel

/-- Reads a mapping in block form from the colon after a key on; its entries so far are given from
the last. -/
def readKeys (column line : Nat) (key : Node) (entries : List (Node × Node)) : Nat → Reader Node
  | 0 => failHere .unsupported
  | fuel + 1 => do
    advance
    let value ← readBelow column false fuel
    let entries := (key, value) :: entries
    let after ← get
    toNext false true
    let next ← get
    if next.rest = [] then
      set after
      pure (.mapping (line + 1) entries.reverse)
    else if next.line = after.line then failIn line .expectedKey
    else if next.column < column then
      set after
      pure (.mapping (line + 1) entries.reverse)
    else if column < next.column then failIn line .expectedKey
    else if isMark '-' next.rest then failIn line .expectedKey
    else
      let key ← readAtom false (column + 1) fuel
      skipBlanks
      let colon ← get
      if isMark ':' colon.rest && colon.line = next.line then readKeys column line key entries fuel
      else failIn next.line .missingColon
termination_by structural fuel => fuel

end

/-- May the character stand in a document? -/
def isAllowed (c : Char) : Bool :=
  let n := c.toNat
  n = 9 || n = 10 || n = 13 || (0x20 ≤ n && n ≤ 0x7E) || n = 0x85
    || (0xA0 ≤ n && n ≤ 0xD7FF) || (0xE000 ≤ n && n ≤ 0xFFFD && n ≠ 0xFEFF) || 0x10000 ≤ n

/-- The text with every line break as a line feed. -/
def unifyBreaks : List Char → List Char
  | [] => []
  | '\r' :: '\n' :: rest => '\n' :: unifyBreaks rest
  | '\r' :: rest => '\n' :: unifyBreaks rest
  | '\x85' :: rest => '\n' :: unifyBreaks rest
  | c :: rest => c :: unifyBreaks rest

/-- The characters of a text, without a byte order mark and with line feeds only. -/
def characters (text : Bytes) : Except Error (List Char) :=
  let chars? := (Glyph.decode text).mapM fun
    | .char c => some c
    | .stray _ => none
  match chars? with
  | none => .error ⟨.invalidBytes, 0, 0⟩
  | some chars =>
    let chars := if chars.head? = some '\uFEFF' then chars.drop 1 else chars
    if chars.all isAllowed then .ok (unifyBreaks chars) else .error ⟨.controlCharacter, 0, 0⟩

/-- Does a mark between documents start here? -/
def isDocumentMark (mark : String) (chars : List Char) : Bool :=
  chars.take 3 = mark.toList && atGap (chars.drop 3)

/-- Is a line blank or a comment? -/
def isIdle (line : List Char) : Bool :=
  match line.dropWhile (· = ' ') with
  | [] => true
  | c :: _ => c = '#'

/-- The lines of a text. -/
def lines : List Char → List (List Char)
  | [] => [[]]
  | '\n' :: rest => [] :: lines rest
  | c :: rest =>
    match lines rest with
    | [] => [[c]]
    | line :: others => (c :: line) :: others

/-- Reads the node of a document from its lines. -/
def readNode (first column : Nat) (nested : Bool) (text : List (List Char)) :
    Except Error (Option Node) := do
  let chars := ['\n'].intercalate text
  let reader : Reader (Option Node) := do
    toNext false false
    let start ← get
    if start.rest = [] then pure none
    else
      let node ← readBlock 0 (nested || start.line ≠ first) (2 * chars.length + 10)
      toNext false true
      let stop ← get
      if stop.rest = [] then pure (some node) else throw ⟨.expectedDocument, 0, stop.line⟩
  let (node, _) ← reader ⟨first, column, chars⟩
  pure node

/-- The node of the first document of a text, if it has one. -/
def readDocument (text : Bytes) : Except Error (Option Node) := do
  let all := lines (← characters text)
  let idle := (all.takeWhile isIdle).length
  let isEnd := fun line => isDocumentMark "---" line || isDocumentMark "..." line
  match all.drop idle with
  | [] => pure none
  | first :: rest =>
    if isDocumentMark "---" first then
      readNode idle 3 false (first.drop 3 :: rest.takeWhile fun line => !isEnd line)
    else readNode idle 0 true ((first :: rest).takeWhile fun line => !isEnd line)

end LoxScript.Yaml
