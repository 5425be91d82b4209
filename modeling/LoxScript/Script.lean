import LoxScript.Execution
import LoxScript.Grammar.Program
import LoxScript.Settings

/-!
# Running a script

A script is read and run as a whole.  What it prints goes to the standard output and everything else
to the standard error; the exit code tells how it went.
-/

namespace LoxScript

/-- How a call of the interpreter ends. -/
inductive Exit where
  /-- All went well. -/
  | success
  /-- The command line is wrong. -/
  | badUsage
  /-- The script is no program. -/
  | badScript
  /-- The program failed. -/
  | programFailed
  /-- A script could not be read, or output not written. -/
  | ioFailed
  /-- The settings could not be read. -/
  | badSettings
  deriving DecidableEq, Repr

/-- The exit code. -/
def Exit.code : Exit → Nat
  | success => 0
  | badUsage => 64
  | badScript => 65
  | programFailed => 70
  | ioFailed => 74
  | badSettings => 78

/-- What a call of the interpreter shows to the outside. -/
structure Report where
  exit : Exit
  stdout : Bytes
  stderr : Bytes
  deriving DecidableEq

namespace Script

/-- The line of the error output for a failure, and the exit that goes with it. -/
def failureReport (e : RuntimeError) : Exit × Bytes :=
  if e.isProgramError then (.programFailed, Bytes.line e.message)
  else (.ioFailed, Bytes.line (utf8 "lox: " ++ e.message))

/-- Reads and runs a script, with its output going to the sink. -/
def run (settings : Settings) (sink : Sink) (source : Bytes) : Report :=
  let reading := readSource settings.mode source
  let traced := if settings.traceParser then traceText reading.trace else []
  match reading.result with
  | .error r => ⟨.badScript, [], traced ++ r.messages.flatMap Bytes.line⟩
  | .ok program =>
    let outcome := LoxScript.run sink program .fresh
    match outcome.failure with
    | none => ⟨.success, outcome.output, traced⟩
    | some e =>
      let (exit, line) := failureReport e
      ⟨exit, outcome.output, traced ++ line⟩

end Script

end LoxScript
