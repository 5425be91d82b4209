import LoxScript.Call.Options
import LoxScript.Script
import LoxScript.Session
import LoxScript.Settings.Decode

/-!
# Calls of the interpreter

A call names a script to run, or none for an interactive session.  First the options are read, then
the settings, then the script; the first of them that fails ends the call.  An option that is on
counts beside the setting of the same meaning, which may be on as well.
-/

namespace LoxScript

/-- A call that has been understood: its options and the script, if there is one. -/
structure Call where
  options : Options
  script : Option Bytes

namespace Call

/-- The file with the settings, if the call names none.  It need not be there. -/
def usualSettings : Bytes := utf8 "lox.yaml"

/-- How the interpreter is called. -/
def usage : Bytes :=
  ["Usage: lox [flags] [script]",
   "  -config string",
   "    \tpath to the YAML config file (default lox.yaml if present)",
   "  -recover",
   "    \treport every syntax error instead of stopping at the first",
   "  -trace",
   "    \tprint parser trace"].flatMap fun line => Bytes.line (utf8 line)

/-- The report on a call that cannot be understood. -/
def misuse (e : Options.Error) : Report :=
  match e.message? with
  | some message => ⟨.badUsage, [], Bytes.line message ++ usage⟩
  | none => ⟨.success, [], usage⟩

/-- The report on a script that cannot be read. -/
def unreadable (fault : FileFault) : Report :=
  ⟨.ioFailed, [], Bytes.line (utf8 "lox: " ++ fault.message)⟩

/-- Understands the arguments of a call. -/
def understand (arguments : List Bytes) : Except Report Call :=
  match Options.read arguments with
  | .error e => .error (misuse e)
  | .ok options =>
    match options.arguments with
    | [] => .ok ⟨options, none⟩
    | [script] => .ok ⟨options, some script⟩
    | _ => .error ⟨.badUsage, [], usage⟩

/-- The file in which a call looks for settings. -/
def settingsFile (c : Call) : Bytes :=
  if c.options.settingsPath = [] then usualSettings else c.options.settingsPath

/-- The settings for a call, given what reading their file came to. -/
def settings (c : Call) (home : Bytes) (content : Except FileFault Bytes) :
    Except Report Settings :=
  let loaded :=
    if c.options.settingsPath = [] then Settings.loadOptional home c.settingsFile content
    else Settings.load home c.settingsFile content
  match loaded with
  | .error e => .error ⟨.badSettings, [], Bytes.line e.message⟩
  | .ok s =>
    .ok { s with
      traceParser := s.traceParser || c.options.trace
      recover := s.recover || c.options.recover }

/-- Runs a script, given what reading its file came to. -/
def runScript (settings : Settings) (content : Except FileFault Bytes) : Report :=
  match content with
  | .error fault => unreadable fault
  | .ok source => Script.run settings .unlimited source

/-- A whole call, with all of its input at hand. -/
def perform (home : Bytes) (files : Files) (arguments : List Bytes) (stdin : Bytes) : Report :=
  let report : Except Report Report := do
    let c ← understand arguments
    let settings ← c.settings home (files.read c.settingsFile)
    match c.script with
    | none => return ⟨.success, Session.transcript settings stdin, []⟩
    | some script => return runScript settings (files.read script)
  match report with
  | .ok r => r
  | .error r => r

end Call

end LoxScript
