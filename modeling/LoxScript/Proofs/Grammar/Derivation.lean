import Mathlib.Tactic.Lemma
import LoxScript.Grammar.Program

/-!
# Derivation trees

The grammar of the language has two kinds of categories, those of expressions and those of
statements, and a derivation tree is built by the productions of its category.  The trees here carry
the tokens they are made of, each of them of the kind that its production asks for, so a tree that
breaks the grammar cannot be written down.  The binary levels are left-recursive, assignment is
right-recursive, and its target is a name.

A tree has its tokens, in order, and the value that it stands for, which forgets the tokens that
only hold the parts together.

The grammar is ambiguous in one place: an `else` may belong to any open `if` before it.  A tree is
*settled* before the tokens that follow it when no `if` without an alternative has an `else` right
after it.
-/

namespace LoxScript.Grammar

/-- A token whose kind is among those given. -/
abbrev Word (kinds : List Kind) := { t : Token // t.kind ∈ kinds }

/-- The levels of binary operators, the loosest first. -/
inductive Level where
  | equality | comparison | term | factor
  deriving DecidableEq, Repr

/-- The categories of expressions. -/
inductive ExprCategory where
  | expression
  /-- An expression with an assignment at its top, or any tighter one. -/
  | assignment
  /-- An expression whose top operator belongs to the level, or any tighter one. -/
  | level (l : Level)
  | unary
  | primary
  deriving DecidableEq, Repr

namespace Level

/-- The operators of a level. -/
def signs : Level → List Sign
  | equality => [.bangEqual, .equalEqual]
  | comparison => [.greater, .greaterEqual, .less, .lessEqual]
  | term => [.minus, .plus]
  | factor => [.slash, .star]

/-- The kinds of the operators of a level. -/
def operators (l : Level) : List Kind :=
  l.signs.map Kind.sign

/-- What stands on both sides of an operator of the level. -/
def operand : Level → ExprCategory
  | equality => .level comparison
  | comparison => .level term
  | term => .level factor
  | factor => .unary

end Level

/-- The kinds of the tokens that are literals. -/
abbrev literalKinds : List Kind :=
  [.keyword .falseWord, .keyword .trueWord, .keyword .nilWord, .number, .string]

/-- The kinds of the operators that stand before their operand. -/
abbrev unaryOperators : List Kind :=
  [.sign .bang, .sign .minus]

/-- Derivation trees of expressions. -/
inductive ExprTree : ExprCategory → Type where
  | expression (e : ExprTree .assignment) : ExprTree .expression
  | assign (target : Word [.identifier]) (equal : Word [.sign .equal])
      (value : ExprTree .assignment) : ExprTree .assignment
  | ofEquality (e : ExprTree (.level .equality)) : ExprTree .assignment
  | ofOperand {l : Level} (e : ExprTree l.operand) : ExprTree (.level l)
  | binary {l : Level} (left : ExprTree (.level l)) (operator : Word l.operators)
      (right : ExprTree l.operand) : ExprTree (.level l)
  | unary (operator : Word unaryOperators) (right : ExprTree .unary) : ExprTree .unary
  | ofPrimary (e : ExprTree .primary) : ExprTree .unary
  | literal (token : Word literalKinds) : ExprTree .primary
  | name (token : Word [.identifier]) : ExprTree .primary
  | grouping (opening : Word [.sign .leftParen]) (inner : ExprTree .expression)
      (closing : Word [.sign .rightParen]) : ExprTree .primary

namespace ExprTree

/-- The tokens of a tree, in order. -/
def tokens : {c : ExprCategory} → ExprTree c → List Token
  | _, expression e => e.tokens
  | _, assign target equal value => target.1 :: equal.1 :: value.tokens
  | _, ofEquality e => e.tokens
  | _, ofOperand e => e.tokens
  | _, binary left operator right => left.tokens ++ operator.1 :: right.tokens
  | _, unary operator right => operator.1 :: right.tokens
  | _, ofPrimary e => e.tokens
  | _, literal token => [token.1]
  | _, name token => [token.1]
  | _, grouping opening inner closing => opening.1 :: (inner.tokens ++ [closing.1])

/-- The expression that a tree stands for. -/
def value : {c : ExprCategory} → ExprTree c → Expr
  | _, expression e => e.value
  | _, assign target _ value => .assign target.1 value.value
  | _, ofEquality e => e.value
  | _, ofOperand e => e.value
  | _, binary left operator right => .binary operator.1 operator.1.lexeme left.value right.value
  | _, unary operator right => .unary operator.1 operator.1.lexeme right.value
  | _, ofPrimary e => e.value
  | _, literal token => .literal token.1 (literalValue token.1)
  | _, name token => .name token.1
  | _, grouping opening inner _ => .grouping opening.1 inner.value

end ExprTree

/-- The categories of statements. -/
inductive StmtCategory where
  /-- Declarations up to the end of the input. -/
  | program
  /-- Any number of declarations. -/
  | declarations
  | declaration
  | varDecl
  | statement
  | exprStmt
  | printStmt
  | ifStmt
  | block
  deriving DecidableEq, Repr

/-- What a tree of the category stands for. -/
abbrev StmtCategory.Value : StmtCategory → Type
  | program | declarations => List Stmt
  | declaration | varDecl | statement | exprStmt | printStmt | ifStmt | block => Stmt

/-- Derivation trees of statements. -/
inductive StmtTree : StmtCategory → Type where
  | program (body : StmtTree .declarations) (stop : Word [.endOfInput]) : StmtTree .program
  | nothing : StmtTree .declarations
  | more (first : StmtTree .declaration) (others : StmtTree .declarations) :
      StmtTree .declarations
  | ofVarDecl (d : StmtTree .varDecl) : StmtTree .declaration
  | ofStatement (d : StmtTree .statement) : StmtTree .declaration
  | var (keyword : Word [.keyword .varWord]) (name : Word [.identifier])
      (semicolon : Word [.sign .semicolon]) : StmtTree .varDecl
  | varInit (keyword : Word [.keyword .varWord]) (name : Word [.identifier])
      (equal : Word [.sign .equal]) (initial : ExprTree .expression)
      (semicolon : Word [.sign .semicolon]) : StmtTree .varDecl
  | ofExprStmt (d : StmtTree .exprStmt) : StmtTree .statement
  | ofPrintStmt (d : StmtTree .printStmt) : StmtTree .statement
  | ofIfStmt (d : StmtTree .ifStmt) : StmtTree .statement
  | ofBlock (d : StmtTree .block) : StmtTree .statement
  | exprStmt (e : ExprTree .expression) (semicolon : Word [.sign .semicolon]) :
      StmtTree .exprStmt
  | printStmt (keyword : Word [.keyword .printWord]) (e : ExprTree .expression)
      (semicolon : Word [.sign .semicolon]) : StmtTree .printStmt
  | ifThen (keyword : Word [.keyword .ifWord]) (opening : Word [.sign .leftParen])
      (condition : ExprTree .expression) (closing : Word [.sign .rightParen])
      (consequence : StmtTree .statement) : StmtTree .ifStmt
  | ifElse (keyword : Word [.keyword .ifWord]) (opening : Word [.sign .leftParen])
      (condition : ExprTree .expression) (closing : Word [.sign .rightParen])
      (consequence : StmtTree .statement) (otherwise : Word [.keyword .elseWord])
      (alternative : StmtTree .statement) : StmtTree .ifStmt
  | block (opening : Word [.sign .leftBrace]) (body : StmtTree .declarations)
      (closing : Word [.sign .rightBrace]) : StmtTree .block

/-- Does the text go on with a token of one of the kinds? -/
def Starts (kinds : List Kind) (ts : List Token) : Prop :=
  ∃ t ∈ ts.head?, t.kind ∈ kinds

instance (kinds : List Kind) : (ts : List Token) → Decidable (Starts kinds ts)
  | [] => isFalse (by rintro ⟨t, ht, -⟩; cases ht)
  | t :: _ => decidable_of_iff (t.kind ∈ kinds) (by simp [Starts])

namespace StmtTree

/-- The tokens of a tree, in order. -/
def tokens : {c : StmtCategory} → StmtTree c → List Token
  | _, program body stop => body.tokens ++ [stop.1]
  | _, nothing => []
  | _, more first others => first.tokens ++ others.tokens
  | _, ofVarDecl d => d.tokens
  | _, ofStatement d => d.tokens
  | _, var keyword name semicolon => [keyword.1, name.1, semicolon.1]
  | _, varInit keyword name equal initial semicolon =>
    keyword.1 :: name.1 :: equal.1 :: (initial.tokens ++ [semicolon.1])
  | _, ofExprStmt d => d.tokens
  | _, ofPrintStmt d => d.tokens
  | _, ofIfStmt d => d.tokens
  | _, ofBlock d => d.tokens
  | _, exprStmt e semicolon => e.tokens ++ [semicolon.1]
  | _, printStmt keyword e semicolon => keyword.1 :: (e.tokens ++ [semicolon.1])
  | _, ifThen keyword opening condition closing consequence =>
    keyword.1 :: opening.1 :: (condition.tokens ++ closing.1 :: consequence.tokens)
  | _, ifElse keyword opening condition closing consequence otherwise alternative =>
    keyword.1 :: opening.1 :: (condition.tokens ++ closing.1 ::
      (consequence.tokens ++ otherwise.1 :: alternative.tokens))
  | _, block opening body closing => opening.1 :: (body.tokens ++ [closing.1])

/-- The statements that a tree stands for.  A statement that is an expression is known by its first
token. -/
def value : {c : StmtCategory} → StmtTree c → c.Value
  | _, program body _ => body.value
  | _, nothing => ([] : List Stmt)
  | _, more first others => (first.value : Stmt) :: (others.value : List Stmt)
  | _, ofVarDecl d => d.value
  | _, ofStatement d => d.value
  | _, var keyword name _ => Stmt.var keyword.1 name.1 none
  | _, varInit keyword name _ initial _ => Stmt.var keyword.1 name.1 (some initial.value)
  | _, ofExprStmt d => d.value
  | _, ofPrintStmt d => d.value
  | _, ofIfStmt d => d.value
  | _, ofBlock d => d.value
  | _, exprStmt e _ => Stmt.expression (e.tokens.headD (Token.atEnd 1)) e.value
  | _, printStmt keyword e _ => Stmt.print keyword.1 e.value
  | _, ifThen keyword _ condition _ consequence =>
    Stmt.ifThen keyword.1 condition.value consequence.value
  | _, ifElse keyword _ condition _ consequence _ alternative =>
    Stmt.ifElse keyword.1 condition.value consequence.value alternative.value
  | _, block opening body _ => Stmt.block opening.1 body.value

/-- No `if` without an alternative is immediately followed by an `else`, when the tokens `after`
follow the tree. -/
def Settled : {c : StmtCategory} → StmtTree c → (after : List Token) → Prop
  | _, program body stop, after => body.Settled (stop.1 :: after)
  | _, more first others, after => first.Settled (others.tokens ++ after) ∧ others.Settled after
  | _, ofVarDecl d, after => d.Settled after
  | _, ofStatement d, after => d.Settled after
  | _, ofExprStmt d, after => d.Settled after
  | _, ofPrintStmt d, after => d.Settled after
  | _, ofIfStmt d, after => d.Settled after
  | _, ofBlock d, after => d.Settled after
  | _, ifThen _ _ _ _ consequence, after =>
    ¬ Starts [.keyword .elseWord] after ∧ consequence.Settled after
  | _, ifElse _ _ _ _ consequence otherwise alternative, after =>
    consequence.Settled (otherwise.1 :: (alternative.tokens ++ after)) ∧ alternative.Settled after
  | _, block _ body closing, after => body.Settled (closing.1 :: after)
  | _, nothing, _ | _, var .., _ | _, varInit .., _ | _, exprStmt .., _ | _, printStmt .., _ => True

end StmtTree

end LoxScript.Grammar
