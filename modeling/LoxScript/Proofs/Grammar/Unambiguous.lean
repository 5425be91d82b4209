import LoxScript.Proofs.Grammar.Derivation

/-!
# Trees are known by their values

The value of a derivation tree leaves out tokens, such as the parentheses of a conditional
statement, but not how the tokens are grouped.  So a tree can be rebuilt from its value and its
tokens.  For expressions this rests on how tightly their operators bind: the operand of a level is
never an expression of that level, because its value binds more tightly.
-/

namespace LoxScript.Grammar

/-! ### Expressions -/

/-- How tightly the top of an expression binds. -/
def tightness : Expr → Nat
  | .assign .. => 0
  | .binary operator .. =>
    if operator.kind ∈ Level.equality.operators then 1
    else if operator.kind ∈ Level.comparison.operators then 2
    else if operator.kind ∈ Level.term.operators then 3
    else 4
  | .unary .. => 5
  | .literal .. | .grouping .. | .name .. | .missing => 6

/-- How tightly an expression of the category binds at least. -/
def ExprCategory.tightness : ExprCategory → Nat
  | .expression | .assignment => 0
  | .level .equality => 1
  | .level .comparison => 2
  | .level .term => 3
  | .level .factor => 4
  | .unary => 5
  | .primary => 6

/-- A binary expression binds as its level does. -/
lemma tightness_binary {l : Level} {operator : Token} (h : operator.kind ∈ l.operators)
    (text : Bytes) (left right : Expr) :
    tightness (.binary operator text left right) = (ExprCategory.level l).tightness := by
  rw [tightness]
  generalize operator.kind = k at h
  revert k
  cases l <;> decide

lemma tightness_operand (l : Level) :
    l.operand.tightness = (ExprCategory.level l).tightness + 1 := by
  cases l <;> rfl

/-- The value of a tree binds at least as tightly as its category. -/
lemma ExprTree.tightness_le_value {c : ExprCategory} (D : ExprTree c) :
    c.tightness ≤ tightness D.value := by
  induction D with
  | expression | assign => exact Nat.zero_le _
  | ofEquality => exact Nat.zero_le _
  | @ofOperand l e ih =>
    rw [tightness_operand] at ih
    exact Nat.le_of_succ_le ih
  | binary left operator right =>
    exact Nat.le_of_eq (tightness_binary operator.2 operator.1.lexeme left.value right.value).symm
  | unary => exact Nat.le_refl 5
  | ofPrimary e ih => exact Nat.le_of_succ_le ih
  | literal | name | grouping => exact Nat.le_refl 6

/-- An operand of a level is no expression of the level itself. -/
lemma ExprTree.value_operand_ne_binary {l : Level} (e : ExprTree l.operand)
    {operator : Token} (h : operator.kind ∈ l.operators) (text : Bytes) (left right : Expr) :
    e.value ≠ .binary operator text left right := by
  intro hvalue
  have hle := e.tightness_le_value
  rw [hvalue, tightness_binary h, tightness_operand] at hle
  exact Nat.not_succ_le_self _ hle

/-- Equal texts that start with a word start with the same one. -/
lemma word_cons_inj {kinds : List Kind} {w w' : Word kinds} {ts ts' : List Token}
    (h : w.1 :: ts = w'.1 :: ts') : w = w' ∧ ts = ts' := by
  obtain ⟨hw, hts⟩ := List.cons.inj h
  exact ⟨Subtype.ext hw, hts⟩

/-- A tree of an expression is determined by its value, when its tokens stand at the front of a
known text. -/
lemma ExprTree.eq_of_value_eq {c : ExprCategory} {D D' : ExprTree c} (h : D.value = D'.value)
    {rest rest' : List Token} (htokens : D.tokens ++ rest = D'.tokens ++ rest') :
    D = D' ∧ rest = rest' := by
  induction D generalizing rest rest' with
  | expression e ih =>
    cases D' with
    | expression e' =>
      obtain ⟨rfl, hrest⟩ := ih h htokens
      exact ⟨rfl, hrest⟩
  | assign target equal value ih =>
    cases D' with
    | assign target' equal' value' =>
      obtain ⟨-, hvalue⟩ := Expr.assign.inj h
      obtain ⟨rfl, h₁⟩ := word_cons_inj htokens
      obtain ⟨rfl, h₂⟩ := word_cons_inj h₁
      obtain ⟨rfl, hrest⟩ := ih hvalue h₂
      exact ⟨rfl, hrest⟩
    | ofEquality e =>
      have hle := e.tightness_le_value
      rw [show e.value = .assign target.1 value.value from h.symm] at hle
      cases hle
  | ofEquality e ih =>
    cases D' with
    | assign target equal value =>
      have hle := e.tightness_le_value
      rw [show e.value = .assign target.1 value.value from h] at hle
      cases hle
    | ofEquality e' =>
      obtain ⟨rfl, hrest⟩ := ih h htokens
      exact ⟨rfl, hrest⟩
  | ofOperand e ih =>
    cases D' with
    | ofOperand e' =>
      obtain ⟨rfl, hrest⟩ := ih h htokens
      exact ⟨rfl, hrest⟩
    | binary left operator right => exact absurd h (e.value_operand_ne_binary operator.2 _ _ _)
  | binary left operator right ihl ihr =>
    cases D' with
    | ofOperand e => exact absurd h.symm (e.value_operand_ne_binary operator.2 _ _ _)
    | binary left' operator' right' =>
      obtain ⟨-, -, hleft, hright⟩ := Expr.binary.inj h
      simp only [tokens, List.append_assoc, List.cons_append] at htokens
      obtain ⟨rfl, h₁⟩ := ihl hleft htokens
      obtain ⟨rfl, h₂⟩ := word_cons_inj h₁
      obtain ⟨rfl, hrest⟩ := ihr hright h₂
      exact ⟨rfl, hrest⟩
  | unary operator right ih =>
    cases D' with
    | unary operator' right' =>
      obtain ⟨-, -, hright⟩ := Expr.unary.inj h
      obtain ⟨rfl, h₁⟩ := word_cons_inj htokens
      obtain ⟨rfl, hrest⟩ := ih hright h₁
      exact ⟨rfl, hrest⟩
    | ofPrimary e =>
      have hle := e.tightness_le_value
      rw [show e.value = .unary operator.1 operator.1.lexeme right.value from h.symm] at hle
      exact absurd hle (Nat.not_succ_le_self 5)
  | ofPrimary e ih =>
    cases D' with
    | unary operator right =>
      have hle := e.tightness_le_value
      rw [show e.value = .unary operator.1 operator.1.lexeme right.value from h] at hle
      exact absurd hle (Nat.not_succ_le_self 5)
    | ofPrimary e' =>
      obtain ⟨rfl, hrest⟩ := ih h htokens
      exact ⟨rfl, hrest⟩
  | literal token =>
    cases D' with
    | literal token' =>
      obtain ⟨rfl, hrest⟩ := word_cons_inj htokens
      exact ⟨rfl, hrest⟩
    | name | grouping => cases h
  | name token =>
    cases D' with
    | name token' =>
      obtain ⟨rfl, hrest⟩ := word_cons_inj htokens
      exact ⟨rfl, hrest⟩
    | literal | grouping => cases h
  | grouping opening inner closing ih =>
    cases D' with
    | grouping opening' inner' closing' =>
      obtain ⟨-, hinner⟩ := Expr.grouping.inj h
      simp only [tokens, List.cons_append, List.append_assoc, List.nil_append] at htokens
      obtain ⟨rfl, h₁⟩ := word_cons_inj htokens
      obtain ⟨rfl, h₂⟩ := ih hinner h₁
      obtain ⟨rfl, hrest⟩ := word_cons_inj h₂
      exact ⟨rfl, hrest⟩
    | literal | name => cases h

/-! ### Statements -/

/-- A declaration of a variable is no statement. -/
lemma StmtTree.value_varDecl_ne_statement (d : StmtTree .varDecl) (d' : StmtTree .statement) :
    (d.value : Stmt) ≠ d'.value := by
  intro h
  cases d' with
  | ofExprStmt d' | ofPrintStmt d' | ofIfStmt d' | ofBlock d' =>
    cases d <;> cases d' <;> simp [value] at h

/-- A tree of a statement is determined by its value, when its tokens stand at the front of a known
text. -/
lemma StmtTree.eq_of_value_eq {c : StmtCategory} {D D' : StmtTree c} (h : D.value = D'.value)
    {rest rest' : List Token} (htokens : D.tokens ++ rest = D'.tokens ++ rest') :
    D = D' ∧ rest = rest' := by
  induction D generalizing rest rest' with
  | program body stop ih =>
    cases D' with
    | program body' stop' =>
      simp only [tokens, List.append_assoc, List.singleton_append] at htokens
      obtain ⟨rfl, h₁⟩ := ih h htokens
      obtain ⟨rfl, hrest⟩ := word_cons_inj h₁
      exact ⟨rfl, hrest⟩
  | nothing =>
    cases D' with
    | nothing => exact ⟨rfl, htokens⟩
    | more => cases h
  | more first others ihf iho =>
    cases D' with
    | nothing => cases h
    | more first' others' =>
      obtain ⟨hfirst, hothers⟩ := List.cons.inj h
      simp only [tokens, List.append_assoc] at htokens
      obtain ⟨rfl, h₁⟩ := ihf hfirst htokens
      obtain ⟨rfl, hrest⟩ := iho hothers h₁
      exact ⟨rfl, hrest⟩
  | ofVarDecl d ih =>
    cases D' with
    | ofVarDecl d' =>
      obtain ⟨rfl, hrest⟩ := ih h htokens
      exact ⟨rfl, hrest⟩
    | ofStatement d' => exact absurd h (d.value_varDecl_ne_statement d')
  | ofStatement d ih =>
    cases D' with
    | ofVarDecl d' => exact absurd h.symm (d'.value_varDecl_ne_statement d)
    | ofStatement d' =>
      obtain ⟨rfl, hrest⟩ := ih h htokens
      exact ⟨rfl, hrest⟩
  | var keyword name semicolon =>
    cases D' with
    | var keyword' name' semicolon' =>
      obtain ⟨rfl, h₁⟩ := word_cons_inj htokens
      obtain ⟨rfl, h₂⟩ := word_cons_inj h₁
      obtain ⟨rfl, hrest⟩ := word_cons_inj h₂
      exact ⟨rfl, hrest⟩
    | varInit => simp [value] at h
  | varInit keyword name equal initial semicolon =>
    cases D' with
    | var => simp [value] at h
    | varInit keyword' name' equal' initial' semicolon' =>
      obtain ⟨-, -, hinitial⟩ := Stmt.var.inj h
      simp only [tokens, List.cons_append, List.append_assoc, List.nil_append] at htokens
      obtain ⟨rfl, h₁⟩ := word_cons_inj htokens
      obtain ⟨rfl, h₂⟩ := word_cons_inj h₁
      obtain ⟨rfl, h₃⟩ := word_cons_inj h₂
      obtain ⟨rfl, h₄⟩ := ExprTree.eq_of_value_eq (Option.some.inj hinitial) h₃
      obtain ⟨rfl, hrest⟩ := word_cons_inj h₄
      exact ⟨rfl, hrest⟩
  | ofExprStmt d ih =>
    cases D' with
    | ofExprStmt d' =>
      obtain ⟨rfl, hrest⟩ := ih h htokens
      exact ⟨rfl, hrest⟩
    | ofPrintStmt d' | ofIfStmt d' | ofBlock d' =>
      cases d
      cases d' <;> cases h
  | ofPrintStmt d ih =>
    cases D' with
    | ofPrintStmt d' =>
      obtain ⟨rfl, hrest⟩ := ih h htokens
      exact ⟨rfl, hrest⟩
    | ofExprStmt d' | ofIfStmt d' | ofBlock d' =>
      cases d
      cases d' <;> cases h
  | ofIfStmt d ih =>
    cases D' with
    | ofIfStmt d' =>
      obtain ⟨rfl, hrest⟩ := ih h htokens
      exact ⟨rfl, hrest⟩
    | ofExprStmt d' | ofPrintStmt d' | ofBlock d' => cases d <;> cases d' <;> cases h
  | ofBlock d ih =>
    cases D' with
    | ofBlock d' =>
      obtain ⟨rfl, hrest⟩ := ih h htokens
      exact ⟨rfl, hrest⟩
    | ofExprStmt d' | ofPrintStmt d' | ofIfStmt d' =>
      cases d
      cases d' <;> cases h
  | exprStmt e semicolon =>
    cases D' with
    | exprStmt e' semicolon' =>
      obtain ⟨-, he⟩ := Stmt.expression.inj h
      simp only [tokens, List.append_assoc, List.singleton_append] at htokens
      obtain ⟨rfl, h₁⟩ := ExprTree.eq_of_value_eq he htokens
      obtain ⟨rfl, hrest⟩ := word_cons_inj h₁
      exact ⟨rfl, hrest⟩
  | printStmt keyword e semicolon =>
    cases D' with
    | printStmt keyword' e' semicolon' =>
      obtain ⟨-, he⟩ := Stmt.print.inj h
      simp only [tokens, List.cons_append, List.append_assoc, List.nil_append] at htokens
      obtain ⟨rfl, h₁⟩ := word_cons_inj htokens
      obtain ⟨rfl, h₂⟩ := ExprTree.eq_of_value_eq he h₁
      obtain ⟨rfl, hrest⟩ := word_cons_inj h₂
      exact ⟨rfl, hrest⟩
  | ifThen keyword opening condition closing consequence ih =>
    cases D' with
    | ifThen keyword' opening' condition' closing' consequence' =>
      obtain ⟨-, hcondition, hconsequence⟩ := Stmt.ifThen.inj h
      simp only [tokens, List.cons_append, List.append_assoc] at htokens
      obtain ⟨rfl, h₁⟩ := word_cons_inj htokens
      obtain ⟨rfl, h₂⟩ := word_cons_inj h₁
      obtain ⟨rfl, h₃⟩ := ExprTree.eq_of_value_eq hcondition h₂
      obtain ⟨rfl, h₄⟩ := word_cons_inj h₃
      obtain ⟨rfl, hrest⟩ := ih hconsequence h₄
      exact ⟨rfl, hrest⟩
    | ifElse => cases h
  | ifElse keyword opening condition closing consequence otherwise alternative iht ihe =>
    cases D' with
    | ifThen => cases h
    | ifElse keyword' opening' condition' closing' consequence' otherwise' alternative' =>
      obtain ⟨-, hcondition, hconsequence, halternative⟩ := Stmt.ifElse.inj h
      simp only [tokens, List.cons_append, List.append_assoc] at htokens
      obtain ⟨rfl, h₁⟩ := word_cons_inj htokens
      obtain ⟨rfl, h₂⟩ := word_cons_inj h₁
      obtain ⟨rfl, h₃⟩ := ExprTree.eq_of_value_eq hcondition h₂
      obtain ⟨rfl, h₄⟩ := word_cons_inj h₃
      obtain ⟨rfl, h₅⟩ := iht hconsequence h₄
      obtain ⟨rfl, h₆⟩ := word_cons_inj h₅
      obtain ⟨rfl, hrest⟩ := ihe halternative h₆
      exact ⟨rfl, hrest⟩
  | block opening body closing ih =>
    cases D' with
    | block opening' body' closing' =>
      obtain ⟨-, hbody⟩ := Stmt.block.inj h
      simp only [tokens, List.cons_append, List.append_assoc, List.nil_append] at htokens
      obtain ⟨rfl, h₁⟩ := word_cons_inj htokens
      obtain ⟨rfl, h₂⟩ := ih hbody h₁
      obtain ⟨rfl, hrest⟩ := word_cons_inj h₂
      exact ⟨rfl, hrest⟩

end LoxScript.Grammar
