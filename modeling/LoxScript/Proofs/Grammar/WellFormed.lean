import LoxScript.Execution.RuntimeError
import LoxScript.Proofs.Grammar.Source

/-!
# Programs that are read are well formed

Trees put together by hand may have holes, literals without a value, operators that do not exist,
and declarations as branches of an `if`.  The program of an accepted script has none of these, and
every name and operator in it is a token of the script.

What the tokens of the script contribute is that a numeral carries a number and a string a string;
all the rest is read off the productions of the grammar.
-/

namespace LoxScript

open Grammar Scan

/-- Nothing is missing in the expression, each of its literals denotes a value, its operators exist,
and its names and operators are among the tokens. -/
def Expr.WellFormed (ts : List Token) : Expr → Prop
  | literal _ value => ∃ v, Value.ofLiteral value = .ok v
  | grouping _ inner => inner.WellFormed ts
  | unary operator _ right =>
    (operator ∈ ts ∧ operator.kind ∈ unaryOperators) ∧ right.WellFormed ts
  | binary operator _ left right =>
    (operator ∈ ts ∧ ∃ l : Level, operator.kind ∈ l.operators) ∧
      left.WellFormed ts ∧ right.WellFormed ts
  | name token => token ∈ ts
  | assign token value => token ∈ ts ∧ value.WellFormed ts
  | missing => False

/-- Does the statement declare a variable in the scope it stands in? -/
def Stmt.isDeclaration : Stmt → Bool
  | var .. => true
  | _ => false

mutual

/-- Nothing is missing in the statement, its expressions are well formed, and no branch of an `if`
is a declaration. -/
def Stmt.WellFormed (ts : List Token) : Stmt → Prop
  | .expression _ e => e.WellFormed ts
  | .print _ e => e.WellFormed ts
  | .var _ _ none => True
  | .var _ _ (some e) => e.WellFormed ts
  | .block _ body => Program.WellFormed ts body
  | .ifThen _ condition consequence =>
    condition.WellFormed ts ∧ consequence.WellFormed ts ∧ consequence.isDeclaration = false
  | .ifElse _ condition consequence alternative =>
    condition.WellFormed ts ∧ (consequence.WellFormed ts ∧ consequence.isDeclaration = false) ∧
      alternative.WellFormed ts ∧ alternative.isDeclaration = false
  | .missing => False

/-- All statements of the program are well formed. -/
def Program.WellFormed (ts : List Token) : List Stmt → Prop
  | [] => True
  | s :: rest => s.WellFormed ts ∧ Program.WellFormed ts rest

end

/-! ### Expressions -/

/-- The literal of a token that is spelled in a script is no whole number. -/
lemma Scan.Spelled.exists_ofLiteral {t : Token} (h : Spelled t) :
    ∃ v, Value.ofLiteral t.literal = .ok v := by
  obtain ⟨p, hp⟩ := h
  generalize t.lexeme = w, t.kind = kind, t.literal = literal at hp
  cases hp with
  | sign | word => exact ⟨.nil, rfl⟩
  | @numeral w x => exact ⟨.number x, rfl⟩
  | @string body value => exact ⟨.string value, rfl⟩

lemma Scan.Spelled.exists_literalValue {t : Token} (h : Spelled t) :
    ∃ v, Value.ofLiteral (literalValue t) = .ok v := by
  unfold literalValue
  split_ifs with hfalse htrue hnil
  · exact ⟨.boolean false, rfl⟩
  · exact ⟨.boolean true, rfl⟩
  · exact ⟨.nil, rfl⟩
  · exact h.exists_ofLiteral

/-- Expressions with spelled tokens are well formed. -/
lemma Grammar.ExprTree.wellFormed_value {ts : List Token} {c : ExprCategory} (D : ExprTree c)
    (hspelled : ∀ t ∈ ts, Spelled t) (hsub : D.tokens ⊆ ts) : D.value.WellFormed ts := by
  induction D with
  | expression e ih => exact ih hsub
  | ofEquality e ih => exact ih hsub
  | ofOperand e ih => exact ih hsub
  | ofPrimary e ih => exact ih hsub
  | assign target equal value ih =>
    simp only [tokens, List.cons_subset] at hsub
    exact ⟨hsub.1, ih hsub.2.2⟩
  | @binary l left operator right ihl ihr =>
    simp only [tokens, List.append_subset, List.cons_subset] at hsub
    obtain ⟨hleft, hoperator, hright⟩ := hsub
    exact ⟨⟨hoperator, l, operator.2⟩, ihl hleft, ihr hright⟩
  | unary operator right ih =>
    simp only [tokens, List.cons_subset] at hsub
    exact ⟨⟨hsub.1, operator.2⟩, ih hsub.2⟩
  | literal token =>
    simp only [tokens, List.cons_subset] at hsub
    exact (hspelled _ hsub.1).exists_literalValue
  | name token =>
    simp only [tokens, List.cons_subset] at hsub
    exact hsub.1
  | grouping opening inner closing ih =>
    simp only [tokens, List.cons_subset, List.append_subset] at hsub
    exact ih hsub.2.1

/-! ### Statements -/

namespace Grammar

/-- What a tree of the category stands for is well formed.  Only declarations declare. -/
def StmtCategory.WellFormed (ts : List Token) : {c : StmtCategory} → c.Value → Prop
  | .program, p | .declarations, p => Program.WellFormed ts p
  | .declaration, s | .varDecl, s => Stmt.WellFormed ts s
  | .statement, s | .exprStmt, s | .printStmt, s | .ifStmt, s | .block, s =>
    Stmt.WellFormed ts s ∧ Stmt.isDeclaration s = false

/-- Statements with spelled tokens are well formed. -/
lemma StmtTree.wellFormed_value {ts : List Token} {c : StmtCategory} (D : StmtTree c)
    (hspelled : ∀ t ∈ ts, Spelled t) (hsub : D.tokens ⊆ ts) :
    StmtCategory.WellFormed ts D.value := by
  induction D with
  | program body stop ih =>
    simp only [tokens, List.append_subset] at hsub
    exact ih hsub.1
  | nothing => trivial
  | more first others ihf iho =>
    simp only [tokens, List.append_subset] at hsub
    exact ⟨ihf hsub.1, iho hsub.2⟩
  | ofVarDecl d ih => exact ih hsub
  | ofStatement d ih => exact (ih hsub).1
  | ofExprStmt d ih => exact ih hsub
  | ofPrintStmt d ih => exact ih hsub
  | ofIfStmt d ih => exact ih hsub
  | ofBlock d ih => exact ih hsub
  | var keyword name semicolon => trivial
  | varInit keyword name equal initial semicolon =>
    simp only [tokens, List.cons_subset, List.append_subset] at hsub
    exact initial.wellFormed_value hspelled hsub.2.2.2.1
  | exprStmt e semicolon =>
    simp only [tokens, List.append_subset] at hsub
    exact ⟨e.wellFormed_value hspelled hsub.1, rfl⟩
  | printStmt keyword e semicolon =>
    simp only [tokens, List.cons_subset, List.append_subset] at hsub
    exact ⟨e.wellFormed_value hspelled hsub.2.1, rfl⟩
  | ifThen keyword opening condition closing consequence ih =>
    simp only [tokens, List.cons_subset, List.append_subset] at hsub
    obtain ⟨-, -, hcondition, -, hconsequence⟩ := hsub
    exact ⟨⟨condition.wellFormed_value hspelled hcondition, ih hconsequence⟩, rfl⟩
  | ifElse keyword opening condition closing consequence otherwise alternative iht ihe =>
    simp only [tokens, List.cons_subset, List.append_subset] at hsub
    obtain ⟨-, -, hcondition, -, hconsequence, -, halternative⟩ := hsub
    exact ⟨⟨condition.wellFormed_value hspelled hcondition, iht hconsequence,
      ihe halternative⟩, rfl⟩
  | block opening body closing ih =>
    simp only [tokens, List.cons_subset, List.append_subset] at hsub
    exact ⟨ih hsub.2.1, rfl⟩

end Grammar

/-- The program of an accepted script is well formed, with the tokens of the script. -/
theorem exists_wellFormed_of_parse {mode : Mode} {source : Bytes} {p : Program}
    (h : parse mode source = .ok p) :
    ∃ words last, scan source = .ok (words ++ [Token.atEnd last]) ∧
      Program.WellFormed words p := by
  obtain ⟨B, last, hscan, hspelled, rfl⟩ := exists_declarations_of_parse h
  exact ⟨B.tokens, last, hscan, B.wellFormed_value hspelled (List.Subset.refl _)⟩

end LoxScript
