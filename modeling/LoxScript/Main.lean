import LoxScript.Call

/-!
# The command line

Reads the files that a call names, holds the conversation of an interactive session line by line,
and passes everything on to the functions that decide what is to be done.
-/

namespace LoxScript.Main

/-- Writes bytes at once. -/
def write (stream : IO.FS.Stream) (text : Bytes) : IO Unit := do
  stream.write ⟨text.toArray⟩
  stream.flush

/-- Shows a report and gives its exit code. -/
def issue (report : Report) : IO UInt32 := do
  write (← IO.getStdout) report.stdout
  write (← IO.getStderr) report.stderr
  return report.exit.code.toUInt32

/-- Why a system refuses a file: the codes 20 and 21 stand for a file used as a directory and the
other way round. -/
def causeOf : IO.Error → FileFault.Cause
  | .noFileOrDirectory _ _ _ => .notFound
  | .inappropriateType _ 20 _ => .notDirectory
  | .inappropriateType _ 21 _ => .isDirectory
  | .permissionDenied _ _ _ => .other (utf8 "permission denied")
  | e => .other (utf8 (toString e))

/-- The content of a file of the system. -/
def readFile (path : Bytes) : IO (Except FileFault Bytes) := do
  match String.fromUTF8? ⟨path.toArray⟩ with
  | none => return .error ⟨.opening, path, .notFound⟩
  | some name =>
    match ← (IO.FS.Handle.mk name .read).toBaseIO with
    | .error e => return .error ⟨.opening, path, causeOf e⟩
    | .ok handle =>
      match ← handle.readBinToEnd.toBaseIO with
      | .error e => return .error ⟨.reading, path, causeOf e⟩
      | .ok content => return .ok content.toList

/-- The bytes up to the next line feed and with it, but no more than fit into the buffer.  `taken`
holds those already read, the last one first. -/
partial def readRaw (stdin : IO.FS.Stream) (taken : Bytes) (room : Nat) : IO Bytes := do
  if room = 0 then return taken.reverse
  match (← stdin.read 1).toList with
  | [] => return taken.reverse
  | b :: _ =>
    if b = Bytes.newline then return (b :: taken).reverse
    else readRaw stdin (b :: taken) (room - 1)

/-- Holds a session from a prompt on.  `pending` is the entry being read, if it has begun. -/
partial def converse (settings : Settings) (chain : Chain) (pending : Option Bytes) : IO Unit := do
  let stdout ← IO.getStdout
  write stdout (if pending.isSome then settings.continuationPrompt else settings.prompt)
  let lines := Lines.ofBytes (← readRaw (← IO.getStdin) [] Lines.bufferSize)
  let progress := match lines.lines, pending with
    | line :: _, none => some (Entry.Progress.of line)
    | line :: _, some text => some (Entry.extend text line)
    | [], some text => if lines.overlong then none else some (.complete text)
    | [], none => none
  match progress with
  | some (.unfinished text) => converse settings chain (some text)
  | some (.complete text) =>
    let step := Session.handle settings.traceParser chain text
    write stdout step.output
    if step.goesOn then converse settings step.chain none
  | none => if lines.overlong then write stdout Session.overlongReport

/-- Answers a call. -/
def answer (arguments : List Bytes) : IO UInt32 := do
  match Call.understand arguments with
  | .error report => issue report
  | .ok call =>
    let home := utf8 ((← IO.getEnv "HOME").getD "")
    match call.settings home (← readFile call.settingsFile) with
    | .error report => issue report
    | .ok settings =>
      match call.script with
      | some script => issue (Call.runScript settings (← readFile script))
      | none =>
        converse settings .fresh none
        return Exit.success.code.toUInt32

end LoxScript.Main

/-- The command `lox`. -/
def main (arguments : List String) : IO UInt32 :=
  LoxScript.Main.answer (arguments.map LoxScript.utf8)
