import LoxScript.Grammar.Statement

/-!
# Reading programs

A program is read from its tokens up to the first end of input; what follows that token plays no
part.  A list of tokens without one is taken to end on the line of its last token.
-/

namespace LoxScript

/-- What comes of reading a program. -/
structure Reading where
  /-- The rules tried. -/
  trace : List Span
  /-- The program, or what is wrong with it. -/
  result : Except Rejection Program

namespace Grammar

/-- The tokens before the first end of input. -/
def body (tokens : List Token) : List Token :=
  tokens.takeWhile (·.kind ≠ .endOfInput)

/-- The first end of input. -/
def stop (tokens : List Token) : Token :=
  match tokens.find? (·.kind = .endOfInput) with
  | some t => t
  | none => Token.atEnd ((tokens.getLast?.map Token.line).getD 1)

/-- A bound that no program of `n` tokens reaches. -/
def fuelFor (n : Nat) : Nat :=
  4 * n + 8

/-- The declarations of a whole program. -/
def program (mode : Mode) : Parser Program :=
  fun ts => declarations mode [] (fuelFor ts.length) ts

end Grammar

open Grammar

/-- Reads a program from its tokens. -/
def readTokens (mode : Mode) (tokens : List Token) : Reading :=
  let ts := body tokens
  let toError := SyntaxError.ofFailure ts.length (stop tokens)
  let reply := program mode ts
  { trace := reply.spans
    result :=
      match reply.result, reply.overcome with
      | .error failure, _ => .error (.first (toError failure))
      | .ok (statements, _), [] => .ok statements
      | .ok _, overcome => .error (.every (overcome.map toError)) }

/-- Reads a program from its text. -/
def readSource (mode : Mode) (source : Bytes) : Reading :=
  match scan source with
  | .error e => ⟨[], .error (.lexical e)⟩
  | .ok tokens => readTokens mode tokens

/-- The program that a text is, or what is wrong with it. -/
def parse (mode : Mode) (source : Bytes) : Except Rejection Program :=
  (readSource mode source).result

end LoxScript
