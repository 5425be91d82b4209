import LoxScript.Text.Quoted
import LoxScript.Execution
import LoxScript.Settings
import LoxScript.Session.Entry

/-!
# Interactive sessions

A session reads entries and handles them one after the other.  The variables of one entry are there
for the next.  The value of each expression at the top of an entry is shown; an entry with mistakes
changes nothing, and one that fails in the middle keeps what it did before.
-/

namespace LoxScript

/-- What a session can be told besides programs. -/
inductive Command where
  /-- End the session. -/
  | quit
  /-- Show the variables. -/
  | variables
  /-- Nothing that a session knows. -/
  | unknown
  deriving DecidableEq, Repr

namespace Command

/-- The lower-case form of a character, for those that have an ASCII letter as such. -/
def lower (c : Char) : Char :=
  if 'A' ≤ c ∧ c ≤ 'Z' then Char.ofNat (c.toNat + 32)
  else if c.toNat = 0x130 then 'i'
  else if c.toNat = 0x212A then 'k'
  else c

/-- The characters of a command in lower case. -/
def fold (text : Bytes) : List Char :=
  (Glyph.decode text).map fun
    | .char c => lower c
    | .stray _ => Glyph.replacement

/-- The command of the given text, in which capitals count as small letters. -/
def ofText (text : Bytes) : Command :=
  let name := fold text
  if name = ":quit".toList ∨ name = ":q".toList then .quit
  else if name = ":env".toList then .variables
  else .unknown

end Command

namespace Session

/-- How a variable is listed: strings stand in quotes. -/
def listing (name : Bytes) (v : Value) : Bytes :=
  let shown := match v with
    | .string s => quote s
    | v => v.inspect
  Bytes.line (name ++ utf8 " = " ++ shown)

/-- The variables of the current scope, each on a line. -/
def listVariables (chain : Chain) : Bytes :=
  chain.current.names.flatMap fun name =>
    match chain.get? name with
    | some v => listing name v
    | none => []

/-- The report on an entry with mistakes. -/
def rejectionReport (r : Rejection) : Bytes :=
  Bytes.line (utf8 "Woops! We ran into some syntax errors here!")
    ++ Bytes.line (utf8 " parser errors:")
    ++ r.messages.flatMap fun m => Bytes.line (utf8 "\t" ++ m)

/-- Executes a statement at the top of an entry; the value of an expression is shown. -/
def echo : Stmt → Exec Unit
  | .expression _ e => do
    let v ← Exec.evaluate e
    Exec.write .unlimited (Bytes.line v.inspect)
  | s => exec .unlimited s

/-- Executes the statements of an entry. -/
def echoAll : List Stmt → Exec Unit
  | [] => pure ()
  | s :: rest => do
    echo s
    echoAll rest

/-- What handling an entry comes to. -/
structure Step where
  output : Bytes
  /-- The variables afterwards. -/
  chain : Chain
  /-- Does the session go on? -/
  goesOn : Bool

/-- Handles a piece of a program. -/
def eval (trace : Bool) (chain : Chain) (source : Bytes) : Step :=
  let reading := readSource .recovering source
  let traced := if trace then traceText reading.trace else []
  match reading.result with
  | .error r => ⟨traced ++ rejectionReport r, chain, true⟩
  | .ok program =>
    let outcome := Outcome.ofResult (echoAll program ⟨chain, []⟩)
    let failure := match outcome.failure with
      | none => []
      | some e => Bytes.line (utf8 "runtime error: " ++ e.message)
    ⟨traced ++ outcome.output ++ failure, outcome.chain, true⟩

/-- Handles a command. -/
def command (chain : Chain) (text : Bytes) : Step :=
  match Command.ofText text with
  | .quit => ⟨[], chain, false⟩
  | .variables => ⟨listVariables chain, chain, true⟩
  | .unknown =>
    ⟨Bytes.line (utf8 "unknown command " ++ text ++ utf8 ". Type :quit to exit."), chain, true⟩

/-- Handles an entry; a blank one is passed over. -/
def handle (trace : Bool) (chain : Chain) (text : Bytes) : Step :=
  let trimmed := Bytes.trim text
  if trimmed = [] then ⟨[], chain, true⟩
  else if Entry.isCommand text then command chain trimmed
  else eval trace chain text

/-- The prompts written while an entry is read. -/
def prompts (settings : Settings) (entry : Entry) : Bytes :=
  settings.prompt ++ (List.replicate entry.continuations settings.continuationPrompt).flatten

/-- The report on a line that cannot be read. -/
def overlongReport : Bytes :=
  Bytes.line (utf8 "read error: bufio.Scanner: token too long")

/-- All that is written while entries are read and handled. -/
def transcribe (settings : Settings) : Chain → List Entry → Bytes
  | _, [] => []
  | chain, entry :: rest =>
    prompts settings entry ++
      match entry.result with
      | .ended => []
      | .overlong => overlongReport
      | .entry text =>
        let step := handle settings.traceParser chain text
        step.output ++ if step.goesOn then transcribe settings step.chain rest else []

/-- All that a session on the given input writes. -/
def transcript (settings : Settings) (input : Bytes) : Bytes :=
  let lines := Lines.ofBytes input
  transcribe settings .fresh (Entry.all lines.overlong lines.lines)

end Session

end LoxScript
