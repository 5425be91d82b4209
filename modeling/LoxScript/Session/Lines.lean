import LoxScript.Text.Bytes

/-!
# Lines of input

Input is read line by line into a buffer of fixed size.  A line ends at a line feed; a carriage
return before it does not count, and the last line needs no line feed.  A line that fills the whole
buffer without an end cannot be read, and nothing is read after it.
-/

namespace LoxScript

/-- Lines that can be read, and how the input ends after them. -/
structure Lines where
  lines : List Bytes
  /-- Does the input end with a line that is too long to be read? -/
  overlong : Bool
  deriving DecidableEq

namespace Lines

/-- How many bytes a line may have, with its line feed. -/
def bufferSize : Nat := 65536

/-- The texts between line feeds; nothing after the last one is no line. -/
def segments (input : Bytes) : List Bytes :=
  match input with
  | [] => []
  | b :: rest =>
    (b :: rest).takeWhile (· ≠ Bytes.newline)
      :: segments (((b :: rest).dropWhile (· ≠ Bytes.newline)).drop 1)
termination_by input.length
decreasing_by
  have := (List.dropWhile_suffix (fun b => decide (b ≠ Bytes.newline)) (l := b :: rest)).length_le
  simp only [List.length_drop, List.length_cons] at *
  omega

/-- A line without the carriage return at its end. -/
def chop (line : Bytes) : Bytes :=
  if line.getLast? = some 13 then line.dropLast else line

/-- The lines of an input. -/
def ofBytes (input : Bytes) : Lines :=
  let fits := fun (line : Bytes) => decide (line.length < bufferSize)
  let all := segments input
  ⟨(all.takeWhile fits).map chop, all.any fun line => !fits line⟩

end Lines

end LoxScript
