import LoxScript.Token.Scan

/-!
# What can be wrong with a program

A list of tokens is read from the front.  Where no rule of the grammar can go on, the reading fails:
either something that had to come next is not there, or an assignment has a target that cannot be
assigned to.  A failure remembers the tokens that were left, both at the token to blame and where
the reading stood, so that it can be resumed after the mistake.
-/

namespace LoxScript

/-- What had to come next. -/
inductive Expected where
  | variableName
  | semicolonAfterVariable
  | parenAfterIf
  | parenAfterCondition
  | semicolonAfterValue
  | braceAfterBlock
  | semicolonAfterExpression
  | parenAfterExpression
  | expression
  deriving DecidableEq, Repr

/-- The words for what had to come next. -/
def Expected.text : Expected → Bytes
  | variableName => utf8 "variable name"
  | semicolonAfterVariable => utf8 "';' after variable declaration"
  | parenAfterIf => utf8 "'(' after 'if'"
  | parenAfterCondition => utf8 "')' after if condition"
  | semicolonAfterValue => utf8 "';' after value"
  | braceAfterBlock => utf8 "'\x7d' after block"
  | semicolonAfterExpression => utf8 "';' after expression"
  | parenAfterExpression => utf8 "')' after expression"
  | expression => utf8 "expression"

/-- Why the tokens are no program. -/
inductive SyntaxError.Cause where
  | expected (what : Expected)
  | invalidTarget
  deriving DecidableEq, Repr

/-- A failed attempt to read on. -/
structure Failure where
  cause : SyntaxError.Cause
  /-- The tokens from the one to blame on; none of them when the end of the input is to blame. -/
  blamed : List Token
  /-- The tokens that had not been read when the attempt failed. -/
  unread : List Token
  deriving DecidableEq

/-- A mistake in a program, at a token. -/
structure SyntaxError where
  cause : SyntaxError.Cause
  token : Token
  /-- How many tokens stand before the one to blame. -/
  position : Nat
  deriving DecidableEq

namespace SyntaxError

/-- The mistake behind a failure among `total` tokens that are followed by `stop`. -/
def ofFailure (total : Nat) (stop : Token) (f : Failure) : SyntaxError where
  cause := f.cause
  token := f.blamed.headD stop
  position := total - f.blamed.length

/-- The words for what had to come next, if that is the mistake. -/
def expectation (e : SyntaxError) : Bytes :=
  match e.cause with
  | .expected what => what.text
  | .invalidTarget => []

/-- What is wrong, without the place. -/
def detail (e : SyntaxError) : Bytes :=
  match e.cause with
  | .expected what => utf8 "expected " ++ what.text
  | .invalidTarget => utf8 "invalid assignment target"

/-- Is the end of the input to blame? -/
def isAtEnd (e : SyntaxError) : Bool :=
  e.token.kind = .endOfInput

/-- How the token to blame is shown. -/
def found (e : SyntaxError) : Bytes :=
  if e.isAtEnd then utf8 "end" else utf8 "'" ++ e.token.lexeme ++ utf8 "'"

/-- The message for the reader of the program. -/
def message (e : SyntaxError) : Bytes :=
  utf8 "[line " ++ Bytes.ofInt e.token.line ++ utf8 "] Error at " ++ e.found ++ utf8 ": "
    ++ e.detail

end SyntaxError

/-- Why a script was rejected. -/
inductive Rejection where
  /-- It could not be cut into tokens. -/
  | lexical (e : LexError)
  /-- It is no program, and reading stopped at the first mistake. -/
  | first (e : SyntaxError)
  /-- It is no program, and reading went on after each mistake. -/
  | every (errors : List SyntaxError)
  deriving DecidableEq

namespace Rejection

/-- The messages, one for each mistake. -/
def messages : Rejection → List Bytes
  | lexical e => [e.message]
  | first e => [e.message]
  | every errors => errors.map SyntaxError.message

/-- All messages, each on a line. -/
def message (r : Rejection) : Bytes :=
  Bytes.joinLines r.messages

/-- Did the script merely end too early, so that more input could make it a program?  That is so
when its only mistake is an open string, or is at the end. -/
def isIncomplete : Rejection → Bool
  | lexical e => e.isUnterminated
  | first e => e.isAtEnd
  | every [e] => e.isAtEnd
  | every _ => false

end Rejection

end LoxScript
