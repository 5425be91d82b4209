import LoxScript.Text.Bytes

/-!
# The trace of a parse

While a program is read, each rule of the grammar that is tried covers a stretch of the work, and
the rules tried meanwhile lie inside it.  A trace is the forest of these stretches in the order of
time.  Its text has a line where a rule begins and one where it ends, also when the rule fails,
indented by the number of rules around it.
-/

namespace LoxScript

/-- The rules of the grammar. -/
inductive Rule where
  | declaration | varDecl | statement | ifStmt | printStmt | block | exprStmt
  | expression | assignment | equality | comparison | term | factor | unary | primary
  deriving DecidableEq, Repr

/-- The name of a rule in a trace. -/
def Rule.name : Rule → Bytes
  | declaration => utf8 "declaration"
  | varDecl => utf8 "varDecl"
  | statement => utf8 "statement"
  | ifStmt => utf8 "ifStmt"
  | printStmt => utf8 "printStmt"
  | block => utf8 "block"
  | exprStmt => utf8 "exprStmt"
  | expression => utf8 "expression"
  | assignment => utf8 "assignment"
  | equality => utf8 "equality"
  | comparison => utf8 "comparison"
  | term => utf8 "term"
  | factor => utf8 "factor"
  | unary => utf8 "unary"
  | primary => utf8 "primary"

/-- One attempt of a rule, with the attempts made inside it. -/
inductive Span where
  | mk (rule : Rule) (inner : List Span)

namespace Span

/-- A line of a trace, indented by the given number of tabs. -/
def line (depth : Nat) (mark : Bytes) (rule : Rule) : Bytes :=
  Bytes.line (List.replicate depth 9 ++ mark ++ rule.name)

mutual

/-- The lines of an attempt that has `depth` attempts around it. -/
def render (depth : Nat) : Span → Bytes
  | .mk rule inner =>
    line depth (utf8 "BEGIN ") rule ++ renderAll (depth + 1) inner ++ line depth (utf8 "END ") rule

/-- The lines of attempts made one after the other. -/
def renderAll (depth : Nat) : List Span → Bytes
  | [] => []
  | s :: rest => render depth s ++ renderAll depth rest

end

end Span

/-- The text of a whole trace. -/
def traceText (spans : List Span) : Bytes :=
  Span.renderAll 0 spans

end LoxScript
