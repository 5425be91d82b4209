import LoxScript.Text.Blank
import LoxScript.Grammar.Program
import LoxScript.Session.Lines

/-!
# Entries

What is typed in a session is taken in entries.  An entry is a command, which starts with a colon,
or a piece of a program.  As long as a piece merely ends too early, another line is asked for and
added to it; a blank line, or the end of the input, ends it all the same.
-/

namespace LoxScript

/-- What an attempt to read an entry comes to. -/
inductive Entry.Result where
  /-- An entry. -/
  | entry (text : Bytes)
  /-- The end of the input, with nothing left. -/
  | ended
  /-- A line that cannot be read; lines read before it for the same entry are lost. -/
  | overlong
  deriving DecidableEq

/-- An attempt to read an entry. -/
structure Entry where
  /-- How many lines were asked for after the first. -/
  continuations : Nat
  result : Entry.Result
  deriving DecidableEq

namespace Entry

/-- Is the text a command? -/
def isCommand (text : Bytes) : Bool :=
  (Bytes.trim text).head? = some (Bytes.ofAscii ':')

/-- Is the text a program that merely ends too early? -/
def isUnfinished (text : Bytes) : Bool :=
  match parse .failFast text with
  | .ok _ => false
  | .error r => r.isIncomplete

/-- Must another line be added to the text? -/
def wantsMore (text : Bytes) : Bool :=
  !isCommand text && isUnfinished text

/-- Where the reading of an entry stands after a line. -/
inductive Progress where
  /-- The entry goes on. -/
  | unfinished (text : Bytes)
  /-- The entry is complete. -/
  | complete (text : Bytes)
  deriving DecidableEq

/-- An entry after a line that has been added to it. -/
def Progress.of (text : Bytes) : Progress :=
  if wantsMore text then .unfinished text else .complete text

/-- An unfinished text after another line.  A blank line is not added but ends the entry. -/
def extend (text line : Bytes) : Progress :=
  if Bytes.trim line = [] then .complete text else .of (text ++ Bytes.newline :: line)

/-- Adds lines to an unfinished text.  The answer is the entry and the lines left. -/
def continue? (overlong : Bool) (text : Bytes) : List Bytes → Entry × List Bytes
  | [] => (⟨1, if overlong then .overlong else .entry text⟩, [])
  | line :: rest =>
    match extend text line with
    | .complete whole => (⟨1, .entry whole⟩, rest)
    | .unfinished longer =>
      let (entry, left) := continue? overlong longer rest
      ({ entry with continuations := entry.continuations + 1 }, left)

/-- Reads an entry from its first line on. -/
def read (overlong : Bool) : List Bytes → Entry × List Bytes
  | [] => (⟨0, if overlong then .overlong else .ended⟩, [])
  | line :: rest =>
    match Progress.of line with
    | .complete whole => (⟨0, .entry whole⟩, rest)
    | .unfinished text => continue? overlong text rest

/-- Reading on never adds lines. -/
theorem length_continue?_le (overlong : Bool) (text : Bytes) (lines : List Bytes) :
    (continue? overlong text lines).2.length ≤ lines.length := by
  induction lines generalizing text with
  | nil => simp [continue?]
  | cons line rest ih =>
    simp only [continue?]
    split
    · simp
    · exact Nat.le_succ_of_le (ih _)

/-- An entry takes at least the line it starts with. -/
theorem length_read_lt (overlong : Bool) (line : Bytes) (rest : List Bytes) :
    (read overlong (line :: rest)).2.length < (line :: rest).length := by
  simp only [read]
  split
  · simp
  · exact Nat.lt_succ_of_le (length_continue?_le overlong _ rest)

/-- All attempts to read an entry, up to the one that finds no more. -/
def all (overlong : Bool) (lines : List Bytes) : List Entry :=
  match lines with
  | [] => [(read overlong []).1]
  | line :: rest =>
    let attempt := read overlong (line :: rest)
    match attempt.1.result with
    | .entry _ => attempt.1 :: all overlong attempt.2
    | _ => [attempt.1]
termination_by lines.length
decreasing_by
  exact length_read_lt _ _ _

end Entry

end LoxScript
