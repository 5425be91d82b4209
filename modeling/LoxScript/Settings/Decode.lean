import LoxScript.Files
import LoxScript.Settings
import LoxScript.Text.Quoted
import LoxScript.Yaml.Document

/-!
# Reading settings

Settings are written as a YAML mapping from their names to values.  A name that is left out, or has
no value, keeps what it was; a name that is not known, or a value of the wrong type, is a problem,
and all such problems of a document are reported together.
-/

namespace LoxScript

namespace Settings

open Yaml (Node Tag)

/-- What a value was wanted for. -/
inductive Target where
  | truthValue | text | settings
  deriving DecidableEq, Repr

/-- The name of what a value was wanted for. -/
def Target.name : Target → Bytes
  | truthValue => utf8 "bool"
  | text => utf8 "string"
  | settings => utf8 "config.Config"

/-- A problem with the content of a document. -/
inductive Problem where
  /-- A value has the wrong type. -/
  | mismatch (node : Node) (target : Target)
  /-- There is no setting of this name. -/
  | unknownName (line : Nat) (name : Bytes)
  /-- A name is given twice. -/
  | repeatedName (line : Nat) (name : Bytes) (firstLine : Nat)

/-- A text as it is shown in a message: the beginning of it if it is long. -/
def excerpt (text : Bytes) : Bytes :=
  if 10 < text.length then text.take 7 ++ utf8 "..." else text

/-- The message for a problem. -/
def Problem.message : Problem → Bytes
  | mismatch node target =>
    let shown := match node with
      | .scalar _ _ text => utf8 " \x60" ++ excerpt text ++ utf8 "\x60"
      | _ => []
    utf8 "line " ++ Bytes.ofNat node.line ++ utf8 ": cannot unmarshal " ++ node.tag.name ++ shown
      ++ utf8 " into " ++ target.name
  | unknownName line name =>
    utf8 "line " ++ Bytes.ofNat line ++ utf8 ": field " ++ name ++ utf8 " not found in type "
      ++ Target.settings.name
  | repeatedName line name firstLine =>
    utf8 "line " ++ Bytes.ofNat line ++ utf8 ": mapping key " ++ quote name
      ++ utf8 " already defined at line " ++ Bytes.ofNat firstLine

/-- Why a document does not give settings. -/
inductive DecodeError where
  /-- It is no YAML. -/
  | malformed (e : Yaml.Error)
  /-- It could not be read to its end. -/
  | unreadable (fault : FileFault)
  /-- Its content is wrong. -/
  | problems (all : List Problem)

/-- The message for a document that does not give settings. -/
def DecodeError.message : DecodeError → Bytes
  | malformed e => e.message
  | unreadable fault => utf8 "yaml: input error: " ++ fault.message
  | problems all =>
    utf8 "yaml: unmarshal errors:" ++ all.flatMap fun p => utf8 "\n  " ++ p.message

/-- The words for yes where a truth value is wanted. -/
def yesWords : List Bytes := ["y", "Y", "yes", "Yes", "YES", "on", "On", "ON"].map utf8

/-- The words for no where a truth value is wanted. -/
def noWords : List Bytes := ["n", "N", "no", "No", "NO", "off", "Off", "OFF"].map utf8

/-- A node as a truth value; none if it has no value. -/
def truthValue? (node : Node) : Except Problem (Option Bool) :=
  match node.tag with
  | .null => .ok none
  | .boolean => .ok (some (Yaml.Plain.trues.contains node.text))
  | .string =>
    if yesWords.contains node.text then .ok (some true)
    else if noWords.contains node.text then .ok (some false)
    else .error (.mismatch node .truthValue)
  | _ => .error (.mismatch node .truthValue)

/-- A node as a text; none if it has no value. -/
def text? (node : Node) : Except Problem (Option Bytes) :=
  match node.tag with
  | .null => .ok none
  | .sequence | .mapping => .error (.mismatch node .text)
  | _ => .ok (some node.text)

/-- The settings with one of them changed. -/
def assign (s : Settings) (key value : Node) : Except Problem Settings := do
  match ← text? key with
  | none => pure s
  | some name =>
    if name = utf8 "prompt" then return { s with prompt := (← text? value).getD s.prompt }
    else if name = utf8 "continuation_prompt" then
      return { s with continuationPrompt := (← text? value).getD s.continuationPrompt }
    else if name = utf8 "history_file" then
      return { s with historyFile := (← text? value).getD s.historyFile }
    else if name = utf8 "trace_parser" then
      return { s with traceParser := (← truthValue? value).getD s.traceParser }
    else if name = utf8 "recover" then
      return { s with recover := (← truthValue? value).getD s.recover }
    else throw (.unknownName key.line name)

/-- The settings with all entries of a mapping applied, and the problems met. -/
def assignAll (s : Settings) : List (Node × Node) → Settings × List Problem
  | [] => (s, [])
  | (key, value) :: rest =>
    match s.assign key value with
    | .ok t => t.assignAll rest
    | .error p => let (t, problems) := s.assignAll rest; (t, p :: problems)

/-- The names that are given twice. -/
def repetitions : List (Node × Node) → List Problem
  | [] => []
  | (key, _) :: rest =>
    (rest.filter fun other => other.1.sameKey key).map (fun other =>
      .repeatedName other.1.line other.1.text key.line) ++ repetitions rest

/-- The settings that a document gives, starting from others. -/
def ofNode (s : Settings) (node : Node) : Except DecodeError Settings :=
  match node with
  | .mapping _ entries =>
    match repetitions entries with
    | [] =>
      match s.assignAll entries with
      | (t, []) => .ok t
      | (_, problems) => .error (.problems problems)
    | problems => .error (.problems problems)
  | node => if node.tag = .null then .ok s else .error (.problems [.mismatch node .settings])

/-- The settings written in a text. -/
def decode (home text : Bytes) : Except DecodeError Settings := do
  let s ← match Yaml.readDocument text with
    | .error e => .error (.malformed e)
    | .ok none => .ok (initial home)
    | .ok (some node) => (initial home).ofNode node
  return { s with historyFile := expandHome home s.historyFile }

/-- Why settings cannot be loaded. -/
inductive LoadError where
  | emptyPath
  /-- The file cannot be opened. -/
  | unopened (path : Bytes) (fault : FileFault)
  /-- The file does not give settings. -/
  | undecoded (path : Bytes) (e : DecodeError)

/-- The message for settings that cannot be loaded. -/
def LoadError.message : LoadError → Bytes
  | emptyPath => utf8 "config: empty path"
  | unopened path fault => utf8 "config: open " ++ path ++ utf8 ": " ++ fault.message
  | undecoded path e => utf8 "config: parse " ++ path ++ utf8 ": " ++ e.message

/-- Is the file not there at all? -/
def LoadError.isMissing : LoadError → Bool
  | unopened _ fault => fault.cause = .notFound
  | _ => false

/-- The settings in a file, given what reading it came to. -/
def load (home path : Bytes) (content : Except FileFault Bytes) : Except LoadError Settings :=
  if path = [] then .error .emptyPath
  else
    match content with
    | .error fault =>
      match fault.action with
      | .opening => .error (.unopened path fault)
      | .reading => .error (.undecoded path (.unreadable fault))
    | .ok text =>
      match decode home text with
      | .ok s => .ok s
      | .error e => .error (.undecoded path e)

/-- The settings in a file that need not be there. -/
def loadOptional (home path : Bytes) (content : Except FileFault Bytes) :
    Except LoadError Settings :=
  match load home path content with
  | .error e => if e.isMissing then .ok (initial home) else .error e
  | .ok s => .ok s

end Settings

end LoxScript
