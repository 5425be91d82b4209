import LoxScript.Proofs.Grammar.Reply

/-!
# What is read is derived

Whatever a parser of the grammar reads from the front of a text has a derivation tree of the
parser's category: the tree stands for the value that was read, and its tokens are the ones that
were taken.  For statements the tree is settled before the tokens that are left.
-/

namespace LoxScript.Grammar

open LoxScript.Parser

/-- The rule by which a level is shown in a trace. -/
def Level.rule : Level → Rule
  | equality => .equality
  | comparison => .comparison
  | term => .term
  | factor => .factor

/-- The parser of a category of expressions. -/
def ExprCategory.parser : ExprCategory → Nat → Parser Expr
  | .expression, fuel => Grammar.expression fuel
  | .assignment, fuel => Grammar.assignment fuel
  | .level .equality, fuel => Grammar.equality (Grammar.unary fuel) fuel
  | .level .comparison, fuel => Grammar.comparison (Grammar.unary fuel) fuel
  | .level .term, fuel => Grammar.term (Grammar.unary fuel) fuel
  | .level .factor, fuel => Grammar.factor (Grammar.unary fuel) fuel
  | .unary, fuel => Grammar.unary fuel
  | .primary, fuel => Grammar.primary (Grammar.expression fuel)

/-- All levels are read alike, each with the operands of its own. -/
lemma parser_level (l : Level) (fuel : Nat) :
    (ExprCategory.level l).parser fuel =
      level l.rule l.signs (l.operand.parser fuel) fuel := by
  cases l <;> rfl

/-! ### Expressions -/

/-- Whatever the parser reads is derived from the category. -/
def Sound (c : ExprCategory) (p : Parser Expr) : Prop :=
  ∀ ⦃ts : List Token⦄ ⦃e : Expr⦄ ⦃rest : List Token⦄, (p ts).result = .ok (e, rest) →
    ∃ D : ExprTree c, D.value = e ∧ ts = D.tokens ++ rest

/-- Further operands extend a derivation of the level to the right. -/
lemma chain_sound {l : Level} {operand : Parser Expr} (hop : Sound l.operand operand)
    (fuel : Nat) (left : ExprTree (.level l)) {ts rest : List Token} {e : Expr}
    (h : (chain l.operators operand fuel left.value ts).result = .ok (e, rest)) :
    ∃ D : ExprTree (.level l), D.value = e ∧ left.tokens ++ ts = D.tokens ++ rest := by
  induction fuel generalizing left ts with
  | zero =>
    cases h
    exact ⟨left, rfl, rfl⟩
  | succ fuel ih =>
    rw [chain, result_accept?_bind_eq_ok] at h
    rcases h with ⟨-, h⟩ | ⟨t, mid, ht, rfl, h⟩
    · cases h
      exact ⟨left, rfl, rfl⟩
    · rw [result_bind_eq_ok] at h
      obtain ⟨r, mid', hr, h⟩ := h
      obtain ⟨R, rfl, rfl⟩ := hop hr
      obtain ⟨D, hD, htokens⟩ := ih (.binary left ⟨t, ht⟩ R) h
      refine ⟨D, hD, ?_⟩
      rw [← htokens]
      simp [ExprTree.tokens]

/-- A level is sound when its operands are. -/
lemma level_sound {l : Level} {operand : Parser Expr} (hop : Sound l.operand operand)
    (rule : Rule) (fuel : Nat) : Sound (.level l) (level rule l.signs operand fuel) := by
  intro ts e rest h
  rw [level, result_traced, result_bind_eq_ok] at h
  obtain ⟨first, mid, hfirst, h⟩ := h
  obtain ⟨F, rfl, rfl⟩ := hop hfirst
  exact chain_sound hop fuel (.ofOperand F) h

/-- The parser of a level is sound when that of unary expressions is. -/
lemma parser_level_sound {fuel : Nat} (hunary : Sound .unary (unary fuel)) (l : Level) :
    Sound (.level l) ((ExprCategory.level l).parser fuel) := by
  have hfactor := level_sound (l := .factor) hunary .factor fuel
  have hterm := level_sound (l := .term) hfactor .term fuel
  have hcomparison := level_sound (l := .comparison) hterm .comparison fuel
  have hequality := level_sound (l := .equality) hcomparison .equality fuel
  cases l with
  | equality => exact hequality
  | comparison => exact hcomparison
  | term => exact hterm
  | factor => exact hfactor

/-- Literals, names and groups are derived when what stands in parentheses is. -/
lemma primary_sound {p : Parser Expr} (hp : Sound .expression p) : Sound .primary (primary p) := by
  intro ts e rest h
  rw [primary, result_traced, result_accept?_bind_eq_ok] at h
  rcases h with ⟨-, h⟩ | ⟨t, mid, ht, rfl, h⟩
  · rw [result_accept?_bind_eq_ok] at h
    rcases h with ⟨-, h⟩ | ⟨t, mid, ht, rfl, h⟩
    · rw [result_accept?_bind_eq_ok] at h
      rcases h with ⟨-, h⟩ | ⟨t, mid, ht, rfl, h⟩
      · cases h
      · rw [result_bind_eq_ok] at h
        obtain ⟨inner, mid', hinner, h⟩ := h
        obtain ⟨I, rfl, rfl⟩ := hp hinner
        rw [result_expect_bind_eq_ok] at h
        obtain ⟨c, mid'', hc, rfl, h⟩ := h
        cases h
        exact ⟨.grouping ⟨t, ht⟩ I ⟨c, hc⟩, rfl, by simp [ExprTree.tokens]⟩
    · cases h
      exact ⟨.name ⟨t, ht⟩, rfl, rfl⟩
  · cases h
    exact ⟨.literal ⟨t, ht⟩, rfl, rfl⟩

/-- An assignment is read as an equality, which must then have been a name.  A name that was read as
an equality is a single token, so the tree can be built anew. -/
lemma tokens_of_value_eq_name {c : ExprCategory} (D : ExprTree c) {t : Token}
    (h : D.value = .name t) : D.tokens = [t] ∧ t.kind = .identifier := by
  induction D with
  | expression e ih => exact ih h
  | ofEquality e ih => exact ih h
  | ofOperand e ih => exact ih h
  | ofPrimary e ih => exact ih h
  | name token =>
    cases h
    exact ⟨rfl, by simpa using token.2⟩
  | assign | binary | unary | literal | grouping => cases h

/-- Expressions are sound, together with the two categories they go through. -/
lemma expression_assignment_unary_sound (fuel : Nat) :
    Sound .expression (expression fuel) ∧ Sound .assignment (assignment fuel) ∧
      Sound .unary (unary fuel) := by
  induction fuel with
  | zero => refine ⟨?_, ?_, ?_⟩ <;> intro ts e rest h <;> cases h
  | succ fuel ih =>
    obtain ⟨hexpression, hassignment, hunary⟩ := ih
    refine ⟨?_, ?_, ?_⟩
    · intro ts e rest h
      rw [expression, result_traced] at h
      obtain ⟨D, rfl, rfl⟩ := hassignment h
      exact ⟨.expression D, rfl, rfl⟩
    · intro ts e rest h
      rw [assignment, result_traced, result_bind_eq_ok] at h
      obtain ⟨target, mid, htarget, h⟩ := h
      obtain ⟨T, rfl, rfl⟩ := parser_level_sound hunary .equality htarget
      rw [result_bind_of_ok result_unread, result_accept?_bind_eq_ok] at h
      rcases h with ⟨-, h⟩ | ⟨t, mid', ht, rfl, h⟩
      · cases h
        exact ⟨.ofEquality T, rfl, rfl⟩
      · rw [result_bind_eq_ok] at h
        obtain ⟨v, mid'', hv, h⟩ := h
        obtain ⟨V, rfl, rfl⟩ := hassignment hv
        cases hT : T.value with
        | name name =>
          rw [hT] at h
          cases h
          obtain ⟨htokens, hkind⟩ := tokens_of_value_eq_name T hT
          refine ⟨.assign ⟨name, List.mem_singleton.2 hkind⟩ ⟨t, ht⟩ V, rfl, ?_⟩
          simp [ExprTree.tokens, htokens]
        | literal | grouping | unary | binary | assign | missing =>
          rw [hT] at h
          cases h
    · intro ts e rest h
      rw [unary, result_traced, result_accept?_bind_eq_ok] at h
      rcases h with ⟨-, h⟩ | ⟨t, mid, ht, rfl, h⟩
      · obtain ⟨P, rfl, rfl⟩ := primary_sound hexpression h
        exact ⟨.ofPrimary P, rfl, rfl⟩
      · rw [result_bind_eq_ok] at h
        obtain ⟨r, mid', hr, h⟩ := h
        obtain ⟨R, rfl, rfl⟩ := hunary hr
        cases h
        exact ⟨.unary ⟨t, ht⟩ R, rfl, rfl⟩

/-- Expressions are sound. -/
lemma expression_sound (fuel : Nat) : Sound .expression (expression fuel) :=
  (expression_assignment_unary_sound fuel).1

/-- The parser of every category is sound. -/
lemma parser_sound (c : ExprCategory) (fuel : Nat) : Sound c (c.parser fuel) := by
  obtain ⟨hexpression, hassignment, hunary⟩ := expression_assignment_unary_sound fuel
  cases c with
  | expression => exact hexpression
  | assignment => exact hassignment
  | level l => exact parser_level_sound hunary l
  | unary => exact hunary
  | primary => exact primary_sound hexpression

/-! ### Statements -/

/-- Every expression has a first token. -/
lemma ExprTree.tokens_ne_nil {c : ExprCategory} (D : ExprTree c) : D.tokens ≠ [] := by
  induction D with
  | expression e ih => exact ih
  | ofEquality e ih => exact ih
  | ofOperand e ih => exact ih
  | ofPrimary e ih => exact ih
  | assign | binary | unary | literal | name | grouping => simp [tokens]

/-- The first token of an expression is there whatever follows the expression. -/
lemma ExprTree.headD_tokens_append {c : ExprCategory} (D : ExprTree c) (rest : List Token)
    (t : Token) : (D.tokens ++ rest).headD t = D.tokens.headD t := by
  cases h : D.tokens with
  | nil => exact absurd h D.tokens_ne_nil
  | cons u us => rfl

/-- Whatever the parser reads is derived from the category, and settled before what is left. -/
def StmtSound (c : StmtCategory) (p : Parser c.Value) : Prop :=
  ∀ ⦃ts : List Token⦄ ⦃v : c.Value⦄ ⦃rest : List Token⦄, (p ts).result = .ok (v, rest) →
    ∃ D : StmtTree c, D.value = v ∧ ts = D.tokens ++ rest ∧ D.Settled rest

/-- When reading stops at the first mistake, declarations are never skipped. -/
lemma result_recovering_failFast {p : Parser Stmt} {ts rest : List Token} {o : Option Stmt} :
    (recovering .failFast p ts).result = .ok (o, rest) ↔
      ∃ s, o = some s ∧ (p ts).result = .ok (s, rest) := by
  unfold recovering
  rcases p ts with ⟨spans, overcome, _ | ⟨s, mid⟩⟩
  · simp
  · constructor
    · intro h
      cases h
      exact ⟨s, rfl, rfl⟩
    · rintro ⟨s', rfl, h⟩
      cases h
      rfl

lemma result_recovering_failFast_eq_error {p : Parser Stmt} {ts : List Token} {f : Failure} :
    (recovering .failFast p ts).result = .error f ↔ (p ts).result = .error f := by
  unfold recovering
  rcases p ts with ⟨spans, overcome, _ | ⟨s, mid⟩⟩ <;> simp

/-- Variable declarations are sound after their keyword. -/
lemma varDeclaration_sound (fuel : Nat) (keyword : Word [.keyword .varWord])
    {ts rest : List Token} {s : Stmt}
    (h : (varDeclaration fuel keyword.1 ts).result = .ok (s, rest)) :
    ∃ D : StmtTree .varDecl, D.value = s ∧ keyword.1 :: ts = D.tokens ++ rest ∧ D.Settled rest := by
  rw [varDeclaration, result_traced, result_expect_bind_eq_ok] at h
  obtain ⟨name, mid, hname, rfl, h⟩ := h
  rw [result_accept?_bind_eq_ok] at h
  rcases h with ⟨-, h⟩ | ⟨equal, mid', hequal, rfl, h⟩
  · rw [result_expect_bind_eq_ok] at h
    obtain ⟨semicolon, mid', hsemicolon, rfl, h⟩ := h
    cases h
    exact ⟨.var keyword ⟨name, hname⟩ ⟨semicolon, hsemicolon⟩, rfl, rfl, trivial⟩
  · rw [result_bind_eq_ok] at h
    obtain ⟨e, mid'', he, h⟩ := h
    obtain ⟨E, rfl, rfl⟩ := expression_sound fuel he
    rw [result_expect_bind_eq_ok] at h
    obtain ⟨semicolon, mid', hsemicolon, rfl, h⟩ := h
    cases h
    refine ⟨.varInit keyword ⟨name, hname⟩ ⟨equal, hequal⟩ E ⟨semicolon, hsemicolon⟩, rfl, ?_,
      trivial⟩
    simp [StmtTree.tokens]

/-- Print statements are sound after their keyword. -/
lemma printStatement_sound (fuel : Nat) (keyword : Word [.keyword .printWord])
    {ts rest : List Token} {s : Stmt}
    (h : (printStatement fuel keyword.1 ts).result = .ok (s, rest)) :
    ∃ D : StmtTree .printStmt, D.value = s ∧ keyword.1 :: ts = D.tokens ++ rest ∧
      D.Settled rest := by
  rw [printStatement, result_traced, result_bind_eq_ok] at h
  obtain ⟨e, mid, he, h⟩ := h
  obtain ⟨E, rfl, rfl⟩ := expression_sound fuel he
  rw [result_expect_bind_eq_ok] at h
  obtain ⟨semicolon, mid', hsemicolon, rfl, h⟩ := h
  cases h
  refine ⟨.printStmt keyword E ⟨semicolon, hsemicolon⟩, rfl, ?_, trivial⟩
  simp [StmtTree.tokens]

/-- Statements that are expressions are sound. -/
lemma expressionStatement_sound (fuel : Nat) {ts rest : List Token} {s : Stmt}
    (h : (expressionStatement fuel ts).result = .ok (s, rest)) :
    ∃ D : StmtTree .exprStmt, D.value = s ∧ ts = D.tokens ++ rest ∧ D.Settled rest := by
  rw [expressionStatement, result_traced, result_bind_of_ok result_unread,
    result_bind_eq_ok] at h
  obtain ⟨e, mid, he, h⟩ := h
  obtain ⟨E, rfl, rfl⟩ := expression_sound fuel he
  rw [result_expect_bind_eq_ok] at h
  obtain ⟨semicolon, mid', hsemicolon, rfl, h⟩ := h
  cases h
  refine ⟨.exprStmt E ⟨semicolon, hsemicolon⟩, ?_, ?_, trivial⟩
  · rw [E.headD_tokens_append]
    rfl
  · simp [StmtTree.tokens]

/-- Whatever the parser of a declaration reads is one declaration, derived from the grammar. -/
def DeclarationSound (p : Parser (Option Stmt)) : Prop :=
  ∀ ⦃ts : List Token⦄ ⦃o : Option Stmt⦄ ⦃rest : List Token⦄, (p ts).result = .ok (o, rest) →
    ∃ D : StmtTree .declaration, o = some D.value ∧ ts = D.tokens ++ rest ∧ D.Settled rest

/-- A declaration is sound when statements are. -/
lemma declaration_sound_succ {fuel : Nat}
    (hstatement : StmtSound .statement (statement .failFast fuel)) :
    DeclarationSound (declaration .failFast (fuel + 1)) := by
  intro ts o rest h
  rw [declaration, result_traced, result_recovering_failFast] at h
  obtain ⟨s, rfl, h⟩ := h
  rw [result_accept?_bind_eq_ok] at h
  rcases h with ⟨-, h⟩ | ⟨keyword, mid, hkeyword, rfl, h⟩
  · obtain ⟨D, rfl, rfl, hsettled⟩ := hstatement h
    exact ⟨.ofStatement D, rfl, rfl, hsettled⟩
  · obtain ⟨D, rfl, htokens, hsettled⟩ := varDeclaration_sound fuel ⟨keyword, hkeyword⟩ h
    exact ⟨.ofVarDecl D, rfl, htokens, hsettled⟩

/-- A sequence of declarations is sound when its first one and the others are. -/
lemma declarations_sound_succ {fuel : Nat} {closing : List Kind}
    (hdeclaration : DeclarationSound (declaration .failFast fuel))
    (hdeclarations : StmtSound .declarations (declarations .failFast closing fuel)) :
    StmtSound .declarations (declarations .failFast closing (fuel + 1)) := by
  intro ts v rest h
  rw [declarations, result_bind_of_ok result_unread] at h
  cases ts with
  | nil =>
    cases h
    exact ⟨.nothing, rfl, rfl, trivial⟩
  | cons next ts =>
    by_cases hclosing : next.kind ∈ closing
    · simp only [hclosing, if_true] at h
      cases h
      exact ⟨.nothing, rfl, rfl, trivial⟩
    · simp only [hclosing, if_false] at h
      rw [result_bind_eq_ok] at h
      obtain ⟨first, mid, hfirst, h⟩ := h
      obtain ⟨F, rfl, htokens, hF⟩ := hdeclaration hfirst
      rw [result_bind_eq_ok] at h
      obtain ⟨others, mid', hothers, h⟩ := h
      obtain ⟨O, rfl, rfl, hO⟩ := hdeclarations hothers
      cases h
      refine ⟨.more F O, rfl, ?_, hF, hO⟩
      rw [htokens]
      simp [StmtTree.tokens]

/-- Conditional statements are sound after their keyword, when the statements in them are. -/
lemma ifStatement_sound {p : Parser Stmt} (hp : StmtSound .statement p) (fuel : Nat)
    (keyword : Word [.keyword .ifWord]) {ts rest : List Token} {s : Stmt}
    (h : (ifStatement p fuel keyword.1 ts).result = .ok (s, rest)) :
    ∃ D : StmtTree .ifStmt, D.value = s ∧ keyword.1 :: ts = D.tokens ++ rest ∧ D.Settled rest := by
  rw [ifStatement, result_traced, result_expect_bind_eq_ok] at h
  obtain ⟨opening, mid, hopening, rfl, h⟩ := h
  rw [result_bind_eq_ok] at h
  obtain ⟨condition, mid, hcondition, h⟩ := h
  obtain ⟨C, rfl, rfl⟩ := expression_sound fuel hcondition
  rw [result_expect_bind_eq_ok] at h
  obtain ⟨closing, mid, hclosing, rfl, h⟩ := h
  rw [result_bind_eq_ok] at h
  obtain ⟨consequence, mid, hconsequence, h⟩ := h
  obtain ⟨S, rfl, rfl, hS⟩ := hp hconsequence
  rw [result_accept?_bind_eq_ok] at h
  rcases h with ⟨helse, h⟩ | ⟨otherwise, mid, hotherwise, rfl, h⟩
  · cases h
    refine ⟨.ifThen keyword ⟨opening, hopening⟩ C ⟨closing, hclosing⟩ S, rfl, ?_, helse, hS⟩
    simp [StmtTree.tokens]
  · rw [result_bind_eq_ok] at h
    obtain ⟨alternative, mid, halternative, h⟩ := h
    obtain ⟨A, rfl, rfl, hA⟩ := hp halternative
    cases h
    refine ⟨.ifElse keyword ⟨opening, hopening⟩ C ⟨closing, hclosing⟩ S ⟨otherwise, hotherwise⟩ A,
      rfl, ?_, hS, hA⟩
    simp [StmtTree.tokens]

/-- Blocks are sound after their opening brace, when the declarations in them are. -/
lemma blockStatement_sound {p : Parser (List Stmt)} (hp : StmtSound .declarations p)
    (brace : Word [.sign .leftBrace]) {ts rest : List Token} {s : Stmt}
    (h : (blockStatement p brace.1 ts).result = .ok (s, rest)) :
    ∃ D : StmtTree .block, D.value = s ∧ brace.1 :: ts = D.tokens ++ rest ∧ D.Settled rest := by
  rw [blockStatement, result_traced, result_bind_eq_ok] at h
  obtain ⟨body, mid, hbody, h⟩ := h
  obtain ⟨B, rfl, rfl, hB⟩ := hp hbody
  rw [result_expect_bind_eq_ok] at h
  obtain ⟨closing, mid, hclosing, rfl, h⟩ := h
  cases h
  refine ⟨.block brace B ⟨closing, hclosing⟩, rfl, ?_, hB⟩
  simp [StmtTree.tokens]

/-- A statement is sound when the statements and declarations in it are. -/
lemma statement_sound_succ {fuel : Nat}
    (hstatement : StmtSound .statement (statement .failFast fuel))
    (hdeclarations : StmtSound .declarations
      (declarations .failFast [.sign .rightBrace] fuel)) :
    StmtSound .statement (statement .failFast (fuel + 1)) := by
  intro ts v rest h
  rw [statement, result_traced, result_accept?_bind_eq_ok] at h
  rcases h with ⟨-, h⟩ | ⟨keyword, mid, hkeyword, rfl, h⟩
  · rw [result_accept?_bind_eq_ok] at h
    rcases h with ⟨-, h⟩ | ⟨keyword, mid, hkeyword, rfl, h⟩
    · rw [result_accept?_bind_eq_ok] at h
      rcases h with ⟨-, h⟩ | ⟨brace, mid, hbrace, rfl, h⟩
      · obtain ⟨D, rfl, rfl, hsettled⟩ := expressionStatement_sound fuel h
        exact ⟨.ofExprStmt D, rfl, rfl, hsettled⟩
      · obtain ⟨D, rfl, htokens, hsettled⟩ :=
          blockStatement_sound hdeclarations ⟨brace, hbrace⟩ h
        exact ⟨.ofBlock D, rfl, htokens, hsettled⟩
    · obtain ⟨D, rfl, htokens, hsettled⟩ := printStatement_sound fuel ⟨keyword, hkeyword⟩ h
      exact ⟨.ofPrintStmt D, rfl, htokens, hsettled⟩
  · obtain ⟨D, rfl, htokens, hsettled⟩ :=
      ifStatement_sound hstatement fuel ⟨keyword, hkeyword⟩ h
    exact ⟨.ofIfStmt D, rfl, htokens, hsettled⟩

/-- Statements and declarations are sound as long as reading stops at the first mistake. -/
lemma statement_declarations_sound (fuel : Nat) :
    StmtSound .statement (statement .failFast fuel) ∧
      DeclarationSound (declaration .failFast fuel) ∧
        ∀ closing, StmtSound .declarations (declarations .failFast closing fuel) := by
  induction fuel with
  | zero =>
    refine ⟨?_, ?_, ?_⟩
    · intro ts v rest h
      cases h
    · intro ts o rest h
      cases h
    · intro closing ts v rest h
      cases h
      exact ⟨.nothing, rfl, rfl, trivial⟩
  | succ fuel ih =>
    obtain ⟨hstatement, hdeclaration, hdeclarations⟩ := ih
    exact ⟨statement_sound_succ hstatement (hdeclarations _), declaration_sound_succ hstatement,
      fun closing => declarations_sound_succ hdeclaration (hdeclarations closing)⟩

end LoxScript.Grammar
