import LoxScript.Tree
import LoxScript.Grammar.Parser

/-!
# Reading expressions

    expression → assignment
    assignment → IDENTIFIER "=" assignment | equality
    equality   → comparison (("!=" | "==") comparison)*
    comparison → term ((">" | ">=" | "<" | "<=") term)*
    term       → factor (("-" | "+") factor)*
    factor     → unary (("/" | "*") unary)*
    unary      → ("!" | "-") unary | primary
    primary    → NUMBER | STRING | "true" | "false" | "nil" | IDENTIFIER | "(" expression ")"

The four levels of binary operators group to the left, assignment groups to the right.  An
assignment is read as an equality first; if an `=` follows, the equality must have been a name.

The numbers that the functions take bound the nesting and the length of what they read.  Between two
steps down at least one token is read for every three, so a bound of three times the number of
tokens, and three more, is never reached.
-/

namespace LoxScript.Grammar

open LoxScript.Parser

/-- Reads further operands to the right of `left`, as long as one of the operators comes next. -/
def chain (operators : List Kind) (operand : Parser Expr) : Nat → Expr → Parser Expr
  | 0, left => pure left
  | fuel + 1, left => do
    match ← accept? operators with
    | none => pure left
    | some operator =>
      let right ← operand
      chain operators operand fuel (.binary operator operator.lexeme left right)

/-- A level of binary operators that group to the left. -/
def level (rule : Rule) (operators : List Sign) (operand : Parser Expr) (fuel : Nat) :
    Parser Expr :=
  traced rule do
    let first ← operand
    chain (operators.map Kind.sign) operand fuel first

/-- Multiplication and division. -/
def factor (unary : Parser Expr) (fuel : Nat) : Parser Expr :=
  level .factor [.slash, .star] unary fuel

/-- Addition and subtraction. -/
def term (unary : Parser Expr) (fuel : Nat) : Parser Expr :=
  level .term [.minus, .plus] (factor unary fuel) fuel

/-- Comparisons of size. -/
def comparison (unary : Parser Expr) (fuel : Nat) : Parser Expr :=
  level .comparison [.greater, .greaterEqual, .less, .lessEqual] (term unary fuel) fuel

/-- Comparisons for equality. -/
def equality (unary : Parser Expr) (fuel : Nat) : Parser Expr :=
  level .equality [.bangEqual, .equalEqual] (comparison unary fuel) fuel

/-- The value of a token that is a literal. -/
def literalValue (t : Token) : Literal :=
  if t.kind = .keyword .falseWord then .boolean false
  else if t.kind = .keyword .trueWord then .boolean true
  else if t.kind = .keyword .nilWord then .nil
  else t.literal

/-- A literal, a name, or an expression in parentheses. -/
def primary (expression : Parser Expr) : Parser Expr :=
  traced .primary do
    match ← accept? [.keyword .falseWord, .keyword .trueWord, .keyword .nilWord, .number,
        .string] with
    | some token => pure (.literal token (literalValue token))
    | none =>
      match ← accept? [.identifier] with
      | some token => pure (.name token)
      | none =>
        match ← accept? [.sign .leftParen] with
        | some paren =>
          let inner ← expression
          let _ ← expect (.sign .rightParen) .parenAfterExpression
          pure (.grouping paren inner)
        | none => fail .expression

mutual

/-- Any expression. -/
def expression : Nat → Parser Expr
  | 0 => fail .expression
  | fuel + 1 => traced .expression (assignment fuel)

/-- An assignment, or an expression with no assignment at its top. -/
def assignment : Nat → Parser Expr
  | 0 => fail .expression
  | fuel + 1 =>
    traced .assignment do
      let target ← equality (unary fuel) fuel
      let before ← unread
      match ← accept? [.sign .equal] with
      | none => pure target
      | some _ =>
        let value ← assignment fuel
        match target with
        | .name token => pure (.assign token value)
        | _ => failAtTarget before

/-- Operators before their operand. -/
def unary : Nat → Parser Expr
  | 0 => fail .expression
  | fuel + 1 =>
    traced .unary do
      match ← accept? [.sign .bang, .sign .minus] with
      | some operator =>
        let right ← unary fuel
        pure (.unary operator operator.lexeme right)
      | none => primary (expression fuel)

end

end LoxScript.Grammar
