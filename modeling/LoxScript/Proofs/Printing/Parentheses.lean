import Mathlib.Logic.Basic
import LoxScript.Proofs.Grammar.DanglingElse
import LoxScript.Proofs.Printing.Core

/-!
# Derivation trees with all parentheses

A printed program has parentheses around every operator with its operands, so it has a derivation
tree in which these are groupings.  This tree is built here from a derivation tree of the program
that is printed.  It has the same core, and every `else` in it belongs to the same `if`.

A second change of trees moves all tokens to one line.  Neither change touches the shape of
statements, so both are instances of one map.
-/

namespace LoxScript.Grammar

/-! ### Expressions -/

namespace ExprTree

/-- A primary expression as an expression of any category. -/
def lift : (c : ExprCategory) → ExprTree .primary → ExprTree c
  | .primary, e => e
  | .unary, e => ofPrimary e
  | .level .factor, e => ofOperand (l := .factor) (ofPrimary e)
  | .level .term, e => ofOperand (l := .term) (ofOperand (l := .factor) (ofPrimary e))
  | .level .comparison, e => ofOperand (l := .comparison) (ofOperand (l := .term)
      (ofOperand (l := .factor) (ofPrimary e)))
  | .level .equality, e => ofOperand (l := .equality) (ofOperand (l := .comparison)
      (ofOperand (l := .term) (ofOperand (l := .factor) (ofPrimary e))))
  | .assignment, e => ofEquality (ofOperand (l := .equality) (ofOperand (l := .comparison)
      (ofOperand (l := .term) (ofOperand (l := .factor) (ofPrimary e)))))
  | .expression, e => expression (ofEquality (ofOperand (l := .equality)
      (ofOperand (l := .comparison) (ofOperand (l := .term)
        (ofOperand (l := .factor) (ofPrimary e))))))

/-- An expression of any category as an expression. -/
def widen : {c : ExprCategory} → ExprTree c → ExprTree .expression
  | .expression, e => e
  | .assignment, e => expression e
  | .level .equality, e => expression (ofEquality e)
  | .level .comparison, e => expression (ofEquality (ofOperand (l := .equality) e))
  | .level .term, e => expression (ofEquality (ofOperand (l := .equality)
      (ofOperand (l := .comparison) e)))
  | .level .factor, e => expression (ofEquality (ofOperand (l := .equality)
      (ofOperand (l := .comparison) (ofOperand (l := .term) e))))
  | .unary, e => expression (ofEquality (ofOperand (l := .equality)
      (ofOperand (l := .comparison) (ofOperand (l := .term) (ofOperand (l := .factor) e)))))
  | .primary, e => lift .expression e

lemma tokens_lift (c : ExprCategory) (e : ExprTree .primary) : (lift c e).tokens = e.tokens := by
  match c with
  | .primary | .unary | .assignment | .expression => rfl
  | .level l => cases l <;> rfl

lemma value_lift (c : ExprCategory) (e : ExprTree .primary) : (lift c e).value = e.value := by
  match c with
  | .primary | .unary | .assignment | .expression => rfl
  | .level l => cases l <;> rfl

lemma tokens_widen {c : ExprCategory} (e : ExprTree c) : e.widen.tokens = e.tokens := by
  match c with
  | .primary | .unary | .assignment | .expression => rfl
  | .level l => cases l <;> rfl

lemma value_widen {c : ExprCategory} (e : ExprTree c) : e.widen.value = e.value := by
  match c with
  | .primary | .unary | .assignment | .expression => rfl
  | .level l => cases l <;> rfl

/-- The parenthesis that opens a grouping in print. -/
def leftParen : Word [.sign .leftParen] :=
  ⟨⟨.sign .leftParen, Sign.text .leftParen, .nil, 0⟩, List.mem_singleton.2 rfl⟩

/-- The parenthesis that closes a grouping in print. -/
def rightParen : Word [.sign .rightParen] :=
  ⟨⟨.sign .rightParen, Sign.text .rightParen, .nil, 0⟩, List.mem_singleton.2 rfl⟩

/-- The expression in parentheses. -/
def paren {c : ExprCategory} (e : ExprTree c) : ExprTree .primary :=
  grouping leftParen e.widen rightParen

/-- The expression with parentheses around every operator with its operands. -/
def parenthesised : {c : ExprCategory} → ExprTree c → ExprTree .primary
  | _, expression e => e.parenthesised
  | _, assign target equal value => paren (assign target equal (lift _ value.parenthesised))
  | _, ofEquality e => e.parenthesised
  | _, ofOperand e => e.parenthesised
  | _, binary left operator right =>
    paren (binary (lift _ left.parenthesised) operator (lift _ right.parenthesised))
  | _, unary operator right => paren (unary operator (lift _ right.parenthesised))
  | _, ofPrimary e => e.parenthesised
  | _, literal token => literal token
  | _, name token => name token
  | _, grouping opening inner closing => grouping opening (lift _ inner.parenthesised) closing

lemma core_paren {c : ExprCategory} (e : ExprTree c) : e.paren.value.core = e.value.core := by
  rw [paren, value, Expr.core, value_widen]

lemma tokens_paren {c : ExprCategory} (e : ExprTree c) :
    e.paren.tokens = leftParen.1 :: (e.tokens ++ [rightParen.1]) := by
  rw [paren, tokens, tokens_widen]

/-- More parentheses leave the core as it is. -/
lemma core_parenthesised {c : ExprCategory} (D : ExprTree c) :
    D.parenthesised.value.core = D.value.core := by
  induction D with
  | expression e ih => exact ih
  | assign target equal value ih =>
    rw [parenthesised, core_paren, ExprTree.value, Expr.core, value_lift, ih]
    rfl
  | ofEquality e ih => exact ih
  | ofOperand e ih => exact ih
  | binary left operator right ihl ihr =>
    rw [parenthesised, core_paren, value, Expr.core, value_lift, value_lift, ihl, ihr]
    rfl
  | unary operator right ih =>
    rw [parenthesised, core_paren, value, Expr.core, value_lift, ih]
    rfl
  | ofPrimary e ih => exact ih
  | literal token => rfl
  | name token => rfl
  | grouping opening inner closing ih =>
    rw [parenthesised, value, Expr.core, value_lift, ih]
    rfl

end ExprTree

/-- The word without its place. -/
def unplacedWord {kinds : List Kind} (w : Word kinds) : Word kinds :=
  ⟨w.1.unplaced, w.2⟩

/-- The tree with all tokens on one line. -/
def ExprTree.unplaced : {c : ExprCategory} → ExprTree c → ExprTree c
  | _, expression e => expression e.unplaced
  | _, assign target equal value =>
    assign (unplacedWord target) (unplacedWord equal) value.unplaced
  | _, ofEquality e => ofEquality e.unplaced
  | _, ofOperand e => ofOperand e.unplaced
  | _, binary left operator right => binary left.unplaced (unplacedWord operator) right.unplaced
  | _, unary operator right => unary (unplacedWord operator) right.unplaced
  | _, ofPrimary e => ofPrimary e.unplaced
  | _, literal token => literal (unplacedWord token)
  | _, name token => name (unplacedWord token)
  | _, grouping opening inner closing =>
    grouping (unplacedWord opening) inner.unplaced (unplacedWord closing)

lemma ExprTree.tokens_unplaced {c : ExprCategory} (D : ExprTree c) :
    D.unplaced.tokens = D.tokens.map Token.unplaced := by
  induction D with
  | expression e ih => exact ih
  | ofEquality e ih => exact ih
  | ofOperand e ih => exact ih
  | ofPrimary e ih => exact ih
  | assign target equal value ih => simp [unplaced, tokens, unplacedWord, ih]
  | binary left operator right ihl ihr => simp [unplaced, tokens, unplacedWord, ihl, ihr]
  | unary operator right ih => simp [unplaced, tokens, unplacedWord, ih]
  | literal token => rfl
  | name token => rfl
  | grouping opening inner closing ih => simp [unplaced, tokens, unplacedWord, ih]

/-- The lines of its tokens do not matter for the core of a tree. -/
lemma ExprTree.core_unplaced {c : ExprCategory} (D : ExprTree c) :
    D.unplaced.value.core = D.value.core := by
  induction D with
  | expression e ih => exact ih
  | ofEquality e ih => exact ih
  | ofOperand e ih => exact ih
  | ofPrimary e ih => exact ih
  | assign target equal value ih => exact congrArg (Expr.assign target.1.unplaced) ih
  | binary left operator right ihl ihr =>
    exact congrArg₂ (Expr.binary operator.1.unplaced operator.1.lexeme) ihl ihr
  | unary operator right ih =>
    exact congrArg (Expr.unary operator.1.unplaced operator.1.lexeme) ih
  | literal token => rfl
  | name token => rfl
  | grouping opening inner closing ih => exact ih

/-! ### Statements -/

/-- The core of what a tree of the category stands for. -/
def StmtCategory.core : {c : StmtCategory} → c.Value → c.Value
  | .program, p | .declarations, p => Program.core p
  | .declaration, s | .varDecl, s | .statement, s | .exprStmt, s | .printStmt, s | .ifStmt, s
  | .block, s => Stmt.core s

namespace StmtTree

section Map

variable (word : {kinds : List Kind} → Word kinds → Word kinds)
  (expr : ExprTree .expression → ExprTree .expression)

/-- The tree with other words and other expressions. -/
def map : {c : StmtCategory} → StmtTree c → StmtTree c
  | _, program body stop => program body.map (word stop)
  | _, nothing => nothing
  | _, more first others => more first.map others.map
  | _, ofVarDecl d => ofVarDecl d.map
  | _, ofStatement d => ofStatement d.map
  | _, var keyword name semicolon => var (word keyword) (word name) (word semicolon)
  | _, varInit keyword name equal initial semicolon =>
    varInit (word keyword) (word name) (word equal) (expr initial) (word semicolon)
  | _, ofExprStmt d => ofExprStmt d.map
  | _, ofPrintStmt d => ofPrintStmt d.map
  | _, ofIfStmt d => ofIfStmt d.map
  | _, ofBlock d => ofBlock d.map
  | _, exprStmt e semicolon => exprStmt (expr e) (word semicolon)
  | _, printStmt keyword e semicolon => printStmt (word keyword) (expr e) (word semicolon)
  | _, ifThen keyword opening condition closing consequence =>
    ifThen (word keyword) (word opening) (expr condition) (word closing) consequence.map
  | _, ifElse keyword opening condition closing consequence otherwise alternative =>
    ifElse (word keyword) (word opening) (expr condition) (word closing) consequence.map
      (word otherwise) alternative.map
  | _, block opening body closing => block (word opening) body.map (word closing)

lemma isOpen_map {c : StmtCategory} (D : StmtTree c) : (D.map word expr).isOpen = D.isOpen := by
  induction D with
  | program body stop ih => exact ih
  | more first others ihf iho => rw [map, isOpen, isOpen, ihf, iho]
  | ofStatement d ih => exact ih
  | ofIfStmt d ih => exact ih
  | ifElse keyword opening condition closing consequence otherwise alternative iht ihe => exact ihe
  | nothing | ofVarDecl | var | varInit | ofExprStmt | ofPrintStmt | ofBlock | exprStmt | printStmt
  | ifThen | block => rfl

/-- No `else` changes its `if`. -/
lemma Tidy.map {c : StmtCategory} {D : StmtTree c} (h : D.Tidy) : (D.map word expr).Tidy := by
  induction D with
  | program body stop ih => exact ih h
  | more first others ihf iho => exact ⟨ihf h.1, iho h.2⟩
  | ofStatement d ih => exact ih h
  | ofIfStmt d ih => exact ih h
  | ofBlock d ih => exact ih h
  | ifThen keyword opening condition closing consequence ih => exact ih h
  | ifElse keyword opening condition closing consequence otherwise alternative iht ihe =>
    obtain ⟨hclosed, hthen, helse⟩ := h
    exact ⟨(isOpen_map word expr consequence).trans hclosed, iht hthen, ihe helse⟩
  | block opening body closing ih => exact ih h
  | nothing | ofVarDecl | var | varInit | ofExprStmt | ofPrintStmt | exprStmt | printStmt => trivial

variable {word expr}

/-- Words that differ only in their places and expressions with the same core make trees with the
same core. -/
lemma core_map (hword : ∀ {kinds : List Kind} (w : Word kinds), (word w).1.unplaced = w.1.unplaced)
    (hexpr : ∀ e, (expr e).value.core = e.value.core) {c : StmtCategory} (D : StmtTree c) :
    StmtCategory.core (D.map word expr).value = StmtCategory.core D.value := by
  induction D with
  | program body stop ih => exact ih
  | nothing => rfl
  | more first others ihf iho => exact congrArg₂ List.cons ihf iho
  | ofVarDecl d ih => exact ih
  | ofStatement d ih => exact ih
  | var keyword name semicolon =>
    exact congrArg₂ (Stmt.var · · none) (hword keyword) (hword name)
  | varInit keyword name equal initial semicolon =>
    simp only [map, value, StmtCategory.core, Stmt.core, Option.map_some, hword, hexpr]
  | ofExprStmt d ih => exact ih
  | ofPrintStmt d ih => exact ih
  | ofIfStmt d ih => exact ih
  | ofBlock d ih => exact ih
  | exprStmt e semicolon => exact congrArg (Stmt.expression _) (hexpr e)
  | printStmt keyword e semicolon => exact congrArg₂ Stmt.print (hword keyword) (hexpr e)
  | ifThen keyword opening condition closing consequence ih =>
    have hconsequence : Stmt.core (consequence.map word expr).value = Stmt.core consequence.value :=
      ih
    simp only [map, value, StmtCategory.core, Stmt.core, hword, hexpr, hconsequence]
  | ifElse keyword opening condition closing consequence otherwise alternative iht ihe =>
    have hconsequence : Stmt.core (consequence.map word expr).value = Stmt.core consequence.value :=
      iht
    have halternative : Stmt.core (alternative.map word expr).value = Stmt.core alternative.value :=
      ihe
    simp only [map, value, StmtCategory.core, Stmt.core, hword, hexpr, hconsequence, halternative]
  | block opening body closing ih => exact congrArg₂ Stmt.block (hword opening) ih

end Map

/-- The tree with parentheses around every operator with its operands. -/
def parenthesised {c : StmtCategory} (D : StmtTree c) : StmtTree c :=
  D.map id fun e => e.parenthesised.lift _

lemma core_parenthesised {c : StmtCategory} (D : StmtTree c) :
    StmtCategory.core D.parenthesised.value = StmtCategory.core D.value := by
  refine core_map (fun w => rfl) (fun e => ?_) D
  rw [ExprTree.value_lift, ExprTree.core_parenthesised]

/-- The tree with all tokens on one line. -/
def unplaced {c : StmtCategory} (D : StmtTree c) : StmtTree c :=
  D.map unplacedWord ExprTree.unplaced

lemma core_unplaced {c : StmtCategory} (D : StmtTree c) :
    StmtCategory.core D.unplaced.value = StmtCategory.core D.value := by
  refine core_map ?_ ExprTree.core_unplaced D
  intro kinds w
  exact Token.unplaced_unplaced w.1

lemma tokens_unplaced {c : StmtCategory} (D : StmtTree c) :
    D.unplaced.tokens = D.tokens.map Token.unplaced := by
  unfold unplaced
  induction D with
  | nothing => rfl
  | var keyword name semicolon => rfl
  | ofVarDecl d ih | ofStatement d ih | ofExprStmt d ih | ofPrintStmt d ih | ofIfStmt d ih
  | ofBlock d ih => exact ih
  | program body stop ih => simp [map, tokens, unplacedWord, ih]
  | more first others ihf iho => simp [map, tokens, ihf, iho]
  | varInit keyword name equal initial semicolon =>
    simp [map, tokens, unplacedWord, ExprTree.tokens_unplaced]
  | exprStmt e semicolon => simp [map, tokens, unplacedWord, ExprTree.tokens_unplaced]
  | printStmt keyword e semicolon =>
    simp [map, tokens, unplacedWord, ExprTree.tokens_unplaced]
  | ifThen keyword opening condition closing consequence ih =>
    simp [map, tokens, unplacedWord, ExprTree.tokens_unplaced, ih]
  | ifElse keyword opening condition closing consequence otherwise alternative iht ihe =>
    simp [map, tokens, unplacedWord, ExprTree.tokens_unplaced, iht, ihe]
  | block opening body closing ih => simp [map, tokens, unplacedWord, ih]

end StmtTree

end LoxScript.Grammar
