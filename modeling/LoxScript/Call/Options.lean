import LoxScript.Text.Quoted

/-!
# The options of a call

Options come before the name of the script.  One dash or two are alike, and a value may follow after
an equals sign; an option that wants a value takes the next argument if none is given.  The first
argument that is no option ends them, and so does `--`.
-/

namespace LoxScript

/-- What a call asks for. -/
structure Options where
  /-- The file with the settings; empty for the usual one. -/
  settingsPath : Bytes
  /-- Show which rules of the grammar are tried? -/
  trace : Bool
  /-- Report every mistake of a script? -/
  recover : Bool
  /-- The arguments after the options. -/
  arguments : List Bytes
  deriving DecidableEq

namespace Options

/-- What a call asks for that has no options yet. -/
def none : Options := ⟨[], false, false, []⟩

/-- Why a call cannot be understood. -/
inductive Error where
  | badForm (argument : Bytes)
  | undefined (name : Bytes)
  | badTruthValue (value name : Bytes)
  | missingValue (name : Bytes)
  /-- Nothing is wrong, but the usage was asked for. -/
  | helpWanted
  deriving DecidableEq

/-- The message for a call that cannot be understood; there is none if only help was asked for. -/
def Error.message? : Error → Option Bytes
  | badForm argument => some (utf8 "bad flag syntax: " ++ argument)
  | undefined name => some (utf8 "flag provided but not defined: -" ++ name)
  | badTruthValue value name =>
    some (utf8 "invalid boolean value " ++ quote value ++ utf8 " for -" ++ name
      ++ utf8 ": parse error")
  | missingValue name => some (utf8 "flag needs an argument: -" ++ name)
  | helpWanted => Option.none

/-- An option as it is written. -/
structure Flag where
  name : Bytes
  value : Option Bytes
  deriving DecidableEq

/-- What an argument is where an option may stand. -/
inductive Argument where
  /-- An option. -/
  | flag (f : Flag)
  /-- The mark that ends the options. -/
  | separator
  /-- Not an option. -/
  | other
  /-- An option of the wrong form. -/
  | malformed
  deriving DecidableEq

/-- The byte that options start with. -/
def dash : UInt8 := 45

/-- The byte before a value. -/
def equals : UInt8 := 61

/-- The option with the given text after its dashes.  Its name has at least one byte. -/
def ofBody : Bytes → Argument
  | [] => .malformed
  | b :: rest =>
    if b = dash ∨ b = equals then .malformed
    else
      let name := b :: rest.takeWhile (· ≠ equals)
      match rest.dropWhile (· ≠ equals) with
      | [] => .flag ⟨name, Option.none⟩
      | _ :: value => .flag ⟨name, some value⟩

/-- Tells options from other arguments. -/
def classify (argument : Bytes) : Argument :=
  match argument with
  | first :: second :: rest =>
    if first ≠ dash then .other
    else if second ≠ dash then ofBody (second :: rest)
    else if rest = [] then .separator
    else ofBody rest
  | _ => .other

/-- The truth value of a text. -/
def truthValue? (text : Bytes) : Option Bool :=
  if text ∈ ["1", "t", "T", "TRUE", "true", "True"].map utf8 then some true
  else if text ∈ ["0", "f", "F", "FALSE", "false", "False"].map utf8 then some false
  else Option.none

/-- The truth value that an option is given; its mere presence means true. -/
def truthValueOf (f : Flag) : Except Error Bool :=
  match f.value with
  | Option.none => .ok true
  | some text =>
    match truthValue? text with
    | some b => .ok b
    | Option.none => .error (.badTruthValue text f.name)

/-- Reads the arguments of a call. -/
def readFrom (o : Options) : List Bytes → Except Error Options
  | [] => .ok { o with arguments := [] }
  | argument :: rest =>
    match classify argument with
    | .other => .ok { o with arguments := argument :: rest }
    | .separator => .ok { o with arguments := rest }
    | .malformed => .error (.badForm argument)
    | .flag f =>
      if f.name = utf8 "trace" then do
        let b ← truthValueOf f
        readFrom { o with trace := b } rest
      else if f.name = utf8 "recover" then do
        let b ← truthValueOf f
        readFrom { o with recover := b } rest
      else if f.name = utf8 "config" then
        match f.value with
        | some value => readFrom { o with settingsPath := value } rest
        | Option.none =>
          match rest with
          | [] => .error (.missingValue f.name)
          | value :: more => readFrom { o with settingsPath := value } more
      else if f.name = utf8 "h" ∨ f.name = utf8 "help" then .error .helpWanted
      else .error (.undefined f.name)

/-- The options of a call with the given arguments. -/
def read (arguments : List Bytes) : Except Error Options :=
  readFrom .none arguments

end Options

end LoxScript
