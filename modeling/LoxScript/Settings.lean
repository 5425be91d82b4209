import LoxScript.Path
import LoxScript.Grammar.Statement

/-!
# Settings

What can be set for the interpreter: the two prompts of an interactive session, where its history is
kept, and how scripts are read.
-/

namespace LoxScript

/-- The settings of the interpreter. -/
structure Settings where
  /-- Written before the first line of an entry is read. -/
  prompt : Bytes
  /-- Written before each further line of an entry is read. -/
  continuationPrompt : Bytes
  /-- Where the history of sessions is kept; empty if it is not kept. -/
  historyFile : Bytes
  /-- Show which rules of the grammar are tried? -/
  traceParser : Bool
  /-- Report every mistake of a script? -/
  recover : Bool
  deriving DecidableEq

namespace Settings

/-- The name of the history file in the home directory. -/
def historyName : Bytes := utf8 ".lox_history"

/-- The settings when nothing is set.  Without a home directory there is no history file. -/
def initial (home : Bytes) : Settings where
  prompt := utf8 ">> "
  continuationPrompt := utf8 ".. "
  historyFile := if home = [] then [] else Path.join home historyName
  traceParser := false
  recover := false

/-- A path with a leading `~/` taken from the home directory, if there is one. -/
def expandHome (home path : Bytes) : Bytes :=
  if home ≠ [] ∧ path.take 2 = utf8 "~/" then Path.join home (path.drop 2) else path

/-- The mode in which scripts are read. -/
def mode (s : Settings) : Mode :=
  if s.recover then .recovering else .failFast

end Settings

end LoxScript
