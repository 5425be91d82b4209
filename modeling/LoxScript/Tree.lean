import LoxScript.Text.Quoted
import LoxScript.Token

/-!
# Programs as trees

A program is a list of statements, and statements hold expressions.  Every node keeps the token it
is known by, for its line and its text.  Trees can also be put together by hand: `Expr.missing` and
`Stmt.missing` are the holes of an unfinished tree, and the text of an operator stands beside its
token, since printing goes by the text and meaning by the token.

The printer shows the grouping of every operator with parentheses.
-/

namespace LoxScript

/-- Expressions. -/
inductive Expr where
  /-- A value written down. -/
  | literal (token : Token) (value : Literal)
  /-- An expression in parentheses, known by the opening one. -/
  | grouping (paren : Token) (inner : Expr)
  /-- An operator before its operand. -/
  | unary (operator : Token) (text : Bytes) (right : Expr)
  /-- An operator between its operands. -/
  | binary (operator : Token) (text : Bytes) (left right : Expr)
  /-- The value of a variable. -/
  | name (token : Token)
  /-- A new value for a variable. -/
  | assign (token : Token) (value : Expr)
  /-- A place where an expression is still to come. -/
  | missing
  deriving DecidableEq

/-- Statements. -/
inductive Stmt where
  /-- An expression evaluated for its effect, known by its first token. -/
  | expression (start : Token) (e : Expr)
  | print (keyword : Token) (e : Expr)
  /-- A declaration; without an initial value the variable starts as `nil`. -/
  | var (keyword name : Token) (initial : Option Expr)
  /-- Statements with a scope of their own, known by the opening brace. -/
  | block (brace : Token) (body : List Stmt)
  | ifThen (keyword : Token) (condition : Expr) (consequence : Stmt)
  | ifElse (keyword : Token) (condition : Expr) (consequence alternative : Stmt)
  /-- A place where a statement is still to come. -/
  | missing

instance : Inhabited Expr := ⟨.missing⟩

instance : Inhabited Stmt := ⟨.missing⟩

/-- A program: statements to be executed one after the other. -/
abbrev Program := List Stmt

/-- How a literal without a text of its own is printed. -/
def Literal.render : Literal → Bytes
  | nil => utf8 "nil"
  | number x => writeNumber Decimal.positional x
  | string s => quote s
  | boolean b => Bytes.ofBool b
  | integer n => Bytes.ofInt n

/-- An expression as text.  A literal is printed as it was written, if it was. -/
def Expr.render : Expr → Bytes
  | literal token value => if token.lexeme = [] then value.render else token.lexeme
  | grouping _ inner => utf8 "(" ++ (inner.render ++ utf8 ")")
  | unary _ text right => utf8 "(" ++ text ++ (right.render ++ utf8 ")")
  | binary _ text left right =>
    utf8 "(" ++ (left.render ++ (utf8 " " ++ text ++ utf8 " " ++ (right.render ++ utf8 ")")))
  | name token => token.lexeme
  | assign token value => utf8 "(" ++ token.lexeme ++ utf8 " = " ++ (value.render ++ utf8 ")")
  | missing => []

mutual

/-- A statement as text. -/
def Stmt.render : Stmt → Bytes
  | .expression _ e => e.render ++ utf8 ";"
  | .print _ e => utf8 "print " ++ (e.render ++ utf8 ";")
  | .var _ name none => utf8 "var " ++ name.lexeme ++ utf8 ";"
  | .var _ name (some e) => utf8 "var " ++ name.lexeme ++ utf8 " = " ++ (e.render ++ utf8 ";")
  | .block _ body => utf8 "\x7b" ++ (Program.render body ++ utf8 "\x7d")
  | .ifThen _ condition consequence =>
    utf8 "if (" ++ (condition.render ++ (utf8 ") " ++ consequence.render))
  | .ifElse _ condition consequence alternative =>
    utf8 "if (" ++ (condition.render ++ (utf8 ") " ++ (consequence.render ++ (utf8 " else "
      ++ alternative.render))))
  | .missing => []

/-- The statements of a program as text, without anything between them. -/
def Program.render : List Stmt → Bytes
  | [] => []
  | s :: rest => s.render ++ Program.render rest

end

/-- The token an expression is known by. -/
def Expr.token? : Expr → Option Token
  | literal token _ | grouping token _ | unary token _ _ | binary token _ _ _ | name token
  | assign token _ => some token
  | missing => none

/-- The token a statement is known by. -/
def Stmt.token? : Stmt → Option Token
  | expression token _ | print token _ | var token _ _ | block token _ | ifThen token _ _
  | ifElse token _ _ _ => some token
  | missing => none

/-- The text a program starts with: that of its first statement's token. -/
def Program.startText (p : Program) : Bytes :=
  match p.head?.bind Stmt.token? with
  | some token => token.lexeme
  | none => []

end LoxScript
