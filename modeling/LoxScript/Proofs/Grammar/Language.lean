import Mathlib.Computability.ContextFreeGrammar
import LoxScript.Proofs.Grammar.DanglingElse

/-!
# The language of the grammar

The grammar as a context-free grammar whose terminals are the kinds of tokens.  Repetition is
written by a category of its own, and what may be left out by two productions.

Main statement: the kinds of a list of tokens are a word of the language exactly when the tokens
have a derivation tree.
-/

namespace LoxScript.Grammar

/-- The nonterminals of the grammar. -/
inductive Nonterminal where
  | stmt (c : StmtCategory)
  | expr (c : ExprCategory)
  deriving DecidableEq, Repr

/-- A symbol that stands for a token of the kind. -/
abbrev word (k : Kind) : Symbol Kind Nonterminal := .terminal k

/-- A symbol that stands for a reserved word. -/
abbrev keyword (k : Keyword) : Symbol Kind Nonterminal := .terminal (.keyword k)

/-- A symbol that stands for a sign. -/
abbrev sign (s : Sign) : Symbol Kind Nonterminal := .terminal (.sign s)

/-- A symbol that stands for a category of statements. -/
abbrev stmt (c : StmtCategory) : Symbol Kind Nonterminal := .nonterminal (.stmt c)

/-- A symbol that stands for a category of expressions. -/
abbrev expr (c : ExprCategory) : Symbol Kind Nonterminal := .nonterminal (.expr c)

/-- The productions of statements. -/
def stmtProductions : List (ContextFreeRule Kind Nonterminal) :=
  [⟨.stmt .program, [stmt .declarations, word .endOfInput]⟩,
   ⟨.stmt .declarations, []⟩,
   ⟨.stmt .declarations, [stmt .declaration, stmt .declarations]⟩,
   ⟨.stmt .declaration, [stmt .varDecl]⟩,
   ⟨.stmt .declaration, [stmt .statement]⟩,
   ⟨.stmt .varDecl, [keyword .varWord, word .identifier, sign .semicolon]⟩,
   ⟨.stmt .varDecl, [keyword .varWord, word .identifier, sign .equal, expr .expression,
     sign .semicolon]⟩,
   ⟨.stmt .statement, [stmt .exprStmt]⟩,
   ⟨.stmt .statement, [stmt .printStmt]⟩,
   ⟨.stmt .statement, [stmt .ifStmt]⟩,
   ⟨.stmt .statement, [stmt .block]⟩,
   ⟨.stmt .exprStmt, [expr .expression, sign .semicolon]⟩,
   ⟨.stmt .printStmt, [keyword .printWord, expr .expression, sign .semicolon]⟩,
   ⟨.stmt .ifStmt, [keyword .ifWord, sign .leftParen, expr .expression, sign .rightParen,
     stmt .statement]⟩,
   ⟨.stmt .ifStmt, [keyword .ifWord, sign .leftParen, expr .expression, sign .rightParen,
     stmt .statement, keyword .elseWord, stmt .statement]⟩,
   ⟨.stmt .block, [sign .leftBrace, stmt .declarations, sign .rightBrace]⟩]

/-- The productions of a level of binary operators. -/
def levelProductions (l : Level) : List (ContextFreeRule Kind Nonterminal) :=
  ⟨.expr (.level l), [expr l.operand]⟩ ::
    l.operators.map fun k => ⟨.expr (.level l), [expr (.level l), word k, expr l.operand]⟩

/-- The productions of expressions. -/
def exprProductions : List (ContextFreeRule Kind Nonterminal) :=
  [⟨.expr .expression, [expr .assignment]⟩,
   ⟨.expr .assignment, [word .identifier, sign .equal, expr .assignment]⟩,
   ⟨.expr .assignment, [expr (.level .equality)]⟩] ++
  levelProductions .equality ++ levelProductions .comparison ++ levelProductions .term ++
  levelProductions .factor ++
  unaryOperators.map (fun k => ⟨.expr .unary, [word k, expr .unary]⟩) ++
  [⟨.expr .unary, [expr .primary]⟩] ++
  literalKinds.map (fun k => ⟨.expr .primary, [word k]⟩) ++
  [⟨.expr .primary, [word .identifier]⟩,
   ⟨.expr .primary, [sign .leftParen, expr .expression, sign .rightParen]⟩]

/-- The grammar of the language. -/
def lox : ContextFreeGrammar Kind where
  NT := Nonterminal
  initial := .stmt .program
  rules := (stmtProductions ++ exprProductions).toFinset

lemma mem_rules {r : ContextFreeRule Kind Nonterminal} :
    r ∈ lox.rules ↔ r ∈ stmtProductions ++ exprProductions := by
  change r ∈ (stmtProductions ++ exprProductions).toFinset ↔ _
  exact List.mem_toFinset

/-- The operators of a level have a production each. -/
lemma binary_mem_rules {l : Level} {k : Kind} (hk : k ∈ l.operators) :
    (⟨.expr (.level l), [expr (.level l), word k, expr l.operand]⟩ :
      ContextFreeRule Kind Nonterminal) ∈ lox.rules := by
  rw [mem_rules]
  revert k
  cases l <;> decide

lemma operand_mem_rules (l : Level) :
    (⟨.expr (.level l), [expr l.operand]⟩ : ContextFreeRule Kind Nonterminal) ∈ lox.rules := by
  rw [mem_rules]
  cases l <;> decide

lemma unary_mem_rules {k : Kind} (hk : k ∈ unaryOperators) :
    (⟨.expr .unary, [word k, expr .unary]⟩ : ContextFreeRule Kind Nonterminal) ∈ lox.rules := by
  rw [mem_rules]
  revert k
  decide

lemma literal_mem_rules {k : Kind} (hk : k ∈ literalKinds) :
    (⟨.expr .primary, [word k]⟩ : ContextFreeRule Kind Nonterminal) ∈ lox.rules := by
  rw [mem_rules]
  revert k
  decide

/-! ### From derivation trees to derivations -/

/-- The tokens of a text as symbols. -/
def symbols (ts : List Token) : List (Symbol Kind Nonterminal) :=
  ts.map fun t => .terminal t.kind

@[simp] lemma symbols_nil : symbols [] = [] := rfl

@[simp] lemma symbols_cons (t : Token) (ts : List Token) :
    symbols (t :: ts) = word t.kind :: symbols ts := rfl

@[simp] lemma symbols_append (ts us : List Token) :
    symbols (ts ++ us) = symbols ts ++ symbols us := List.map_append

lemma derives_refl (u : List (Symbol Kind Nonterminal)) : lox.Derives u u :=
  Relation.ReflTransGen.refl

/-- A production followed by a derivation from its right side. -/
lemma derives_of_production {n : Nonterminal} {output w : List (Symbol Kind Nonterminal)}
    (hr : (⟨n, output⟩ : ContextFreeRule Kind Nonterminal) ∈ lox.rules)
    (h : lox.Derives output w) : lox.Derives [.nonterminal n] w := by
  have hproduces : lox.Produces [.nonterminal n] output :=
    ⟨⟨n, output⟩, hr, ContextFreeRule.Rewrites.input_output⟩
  exact hproduces.trans_derives h

/-- A terminal stays in front of a derivation. -/
lemma derives_cons_word (k : Kind) {u w : List (Symbol Kind Nonterminal)}
    (h : lox.Derives u w) : lox.Derives (word k :: u) (word k :: w) :=
  h.append_left [word k]

/-- Derivations from a nonterminal and from what follows it are put together. -/
lemma derives_cons {n : Nonterminal} {u v w : List (Symbol Kind Nonterminal)}
    (hn : lox.Derives [.nonterminal n] v) (h : lox.Derives u w) :
    lox.Derives (.nonterminal n :: u) (v ++ w) := by
  have hleft : lox.Derives (.nonterminal n :: u) (v ++ u) := hn.append_right u
  exact hleft.trans (h.append_left v)

/-- A production with a single nonterminal on its right side. -/
lemma derives_of_unit {n m : Nonterminal} {w : List (Symbol Kind Nonterminal)}
    (hr : (⟨n, [.nonterminal m]⟩ : ContextFreeRule Kind Nonterminal) ∈ lox.rules)
    (h : lox.Derives [.nonterminal m] w) : lox.Derives [.nonterminal n] w :=
  derives_of_production hr h

/-- The tokens of a tree of an expression are derived from its category. -/
lemma ExprTree.derives {c : ExprCategory} (D : ExprTree c) :
    lox.Derives [expr c] (symbols D.tokens) := by
  induction D with
  | expression e ih => exact derives_of_unit (mem_rules.2 (by decide)) ih
  | assign target equal value ih =>
    rw [tokens, symbols_cons, symbols_cons, List.mem_singleton.1 target.2,
      List.mem_singleton.1 equal.2]
    exact derives_of_production (mem_rules.2 (by decide))
      (derives_cons_word _ (derives_cons_word _ ih))
  | ofEquality e ih => exact derives_of_unit (mem_rules.2 (by decide)) ih
  | ofOperand e ih => exact derives_of_unit (operand_mem_rules _) ih
  | binary left operator right ihl ihr =>
    rw [tokens, symbols_append, symbols_cons]
    exact derives_of_production (binary_mem_rules operator.2)
      (derives_cons ihl (derives_cons_word _ ihr))
  | unary operator right ih =>
    rw [tokens, symbols_cons]
    exact derives_of_production (unary_mem_rules operator.2) (derives_cons_word _ ih)
  | ofPrimary e ih => exact derives_of_unit (mem_rules.2 (by decide)) ih
  | literal token =>
    exact derives_of_production (literal_mem_rules token.2) (derives_refl _)
  | name token =>
    rw [tokens, symbols_cons, List.mem_singleton.1 token.2]
    exact derives_of_production (mem_rules.2 (by decide)) (derives_refl _)
  | grouping opening inner closing ih =>
    rw [tokens, symbols_cons, symbols_append, symbols_cons, List.mem_singleton.1 opening.2,
      List.mem_singleton.1 closing.2]
    exact derives_of_production (mem_rules.2 (by decide))
      (derives_cons_word _ (derives_cons ih (derives_refl _)))

/-- The tokens of a tree of a statement are derived from its category. -/
lemma StmtTree.derives {c : StmtCategory} (D : StmtTree c) :
    lox.Derives [stmt c] (symbols D.tokens) := by
  induction D with
  | program body stop ih =>
    rw [tokens, symbols_append, symbols_cons, List.mem_singleton.1 stop.2]
    exact derives_of_production (mem_rules.2 (by decide)) (derives_cons ih (derives_refl _))
  | nothing => exact derives_of_production (mem_rules.2 (by decide)) (derives_refl _)
  | more first others ihf iho =>
    rw [tokens, symbols_append]
    exact derives_of_production (mem_rules.2 (by decide)) (derives_cons ihf iho)
  | ofVarDecl d ih => exact derives_of_unit (mem_rules.2 (by decide)) ih
  | ofStatement d ih => exact derives_of_unit (mem_rules.2 (by decide)) ih
  | var keyword name semicolon =>
    rw [tokens, symbols_cons, symbols_cons, symbols_cons, List.mem_singleton.1 keyword.2,
      List.mem_singleton.1 name.2, List.mem_singleton.1 semicolon.2]
    exact derives_of_production (mem_rules.2 (by decide)) (derives_refl _)
  | varInit keyword name equal initial semicolon =>
    rw [tokens, symbols_cons, symbols_cons, symbols_cons, symbols_append, symbols_cons,
      List.mem_singleton.1 keyword.2, List.mem_singleton.1 name.2, List.mem_singleton.1 equal.2,
      List.mem_singleton.1 semicolon.2]
    exact derives_of_production (mem_rules.2 (by decide)) (derives_cons_word _
      (derives_cons_word _ (derives_cons_word _ (derives_cons initial.derives (derives_refl _)))))
  | ofExprStmt d ih => exact derives_of_unit (mem_rules.2 (by decide)) ih
  | ofPrintStmt d ih => exact derives_of_unit (mem_rules.2 (by decide)) ih
  | ofIfStmt d ih => exact derives_of_unit (mem_rules.2 (by decide)) ih
  | ofBlock d ih => exact derives_of_unit (mem_rules.2 (by decide)) ih
  | exprStmt e semicolon =>
    rw [tokens, symbols_append, symbols_cons, List.mem_singleton.1 semicolon.2]
    exact derives_of_production (mem_rules.2 (by decide)) (derives_cons e.derives (derives_refl _))
  | printStmt keyword e semicolon =>
    rw [tokens, symbols_cons, symbols_append, symbols_cons, List.mem_singleton.1 keyword.2,
      List.mem_singleton.1 semicolon.2]
    exact derives_of_production (mem_rules.2 (by decide))
      (derives_cons_word _ (derives_cons e.derives (derives_refl _)))
  | ifThen keyword opening condition closing consequence ih =>
    rw [tokens, symbols_cons, symbols_cons, symbols_append, symbols_cons,
      List.mem_singleton.1 keyword.2, List.mem_singleton.1 opening.2,
      List.mem_singleton.1 closing.2, ← List.append_nil (symbols consequence.tokens)]
    exact derives_of_production (mem_rules.2 (by decide)) (derives_cons_word _
      (derives_cons_word _ (derives_cons condition.derives
        (derives_cons_word _ (derives_cons ih (derives_refl _))))))
  | ifElse keyword opening condition closing consequence otherwise alternative iht ihe =>
    rw [tokens, symbols_cons, symbols_cons, symbols_append, symbols_cons, symbols_append,
      symbols_cons, List.mem_singleton.1 keyword.2, List.mem_singleton.1 opening.2,
      List.mem_singleton.1 closing.2, List.mem_singleton.1 otherwise.2]
    exact derives_of_production (mem_rules.2 (by decide)) (derives_cons_word _
      (derives_cons_word _ (derives_cons condition.derives
        (derives_cons_word _ (derives_cons iht (derives_cons_word _ ihe))))))
  | block opening body closing ih =>
    rw [tokens, symbols_cons, symbols_append, symbols_cons, List.mem_singleton.1 opening.2,
      List.mem_singleton.1 closing.2]
    exact derives_of_production (mem_rules.2 (by decide))
      (derives_cons_word _ (derives_cons ih (derives_refl _)))

/-! ### From derivations to derivation trees -/

/-- The tokens have a derivation tree of the category. -/
def Nonterminal.HasTree : Nonterminal → List Token → Prop
  | .stmt c, ts => ∃ D : StmtTree c, D.tokens = ts
  | .expr c, ts => ∃ D : ExprTree c, D.tokens = ts

/-- The tokens fall into pieces, one for each symbol: a token of the right kind, or the tokens of a
derivation tree. -/
def Spells : List (Symbol Kind Nonterminal) → List Token → Prop
  | [], ts => ts = []
  | .terminal k :: u, ts => ∃ (t : Word [k]) (us : List Token), ts = t.1 :: us ∧ Spells u us
  | .nonterminal n :: u, ts => ∃ us vs, ts = us ++ vs ∧ n.HasTree us ∧ Spells u vs

lemma spells_symbols (ts : List Token) : Spells (symbols ts) ts := by
  induction ts with
  | nil => rfl
  | cons t ts ih => exact ⟨⟨t, List.mem_singleton_self _⟩, ts, rfl, ih⟩

/-- The pieces of two strings of symbols are put together. -/
lemma spells_append {u v : List (Symbol Kind Nonterminal)} {ts : List Token} :
    Spells (u ++ v) ts ↔ ∃ us vs, ts = us ++ vs ∧ Spells u us ∧ Spells v vs := by
  induction u generalizing ts with
  | nil =>
    constructor
    · intro h
      exact ⟨[], ts, rfl, rfl, h⟩
    · rintro ⟨us, vs, rfl, rfl, h⟩
      exact h
  | cons a u ih =>
    cases a with
    | terminal k =>
      constructor
      · rintro ⟨t, us, rfl, h⟩
        obtain ⟨vs, ws, rfl, hu, hv⟩ := ih.1 h
        exact ⟨t.1 :: vs, ws, rfl, ⟨t, vs, rfl, hu⟩, hv⟩
      · rintro ⟨_, ws, rfl, ⟨t, vs, rfl, hu⟩, hv⟩
        exact ⟨t, vs ++ ws, rfl, ih.2 ⟨vs, ws, rfl, hu, hv⟩⟩
    | nonterminal n =>
      constructor
      · rintro ⟨ts, us, rfl, hn, h⟩
        obtain ⟨vs, ws, rfl, hu, hv⟩ := ih.1 h
        exact ⟨ts ++ vs, ws, (List.append_assoc _ _ _).symm, ⟨ts, vs, rfl, hn, hu⟩, hv⟩
      · rintro ⟨_, ws, rfl, ⟨ts, vs, rfl, hn, hu⟩, hv⟩
        exact ⟨ts, vs ++ ws, List.append_assoc _ _ _, hn, ih.2 ⟨vs, ws, rfl, hu, hv⟩⟩

/-- Trees are built by the productions of statements. -/
lemma hasTree_of_stmtProduction {r : ContextFreeRule Kind Nonterminal} (hr : r ∈ stmtProductions)
    {ts : List Token} (h : Spells r.output ts) : r.input.HasTree ts := by
  simp only [stmtProductions, List.mem_cons, List.not_mem_nil, or_false] at hr
  rcases hr with rfl | rfl | rfl | rfl | rfl | rfl | rfl | rfl | rfl | rfl | rfl | rfl | rfl |
    rfl | rfl | rfl
  · obtain ⟨_, _, rfl, ⟨body, rfl⟩, stop, _, rfl, rfl⟩ := h
    exact ⟨.program body stop, rfl⟩
  · obtain rfl := h
    exact ⟨.nothing, rfl⟩
  · obtain ⟨_, _, rfl, ⟨first, rfl⟩, _, _, rfl, ⟨others, rfl⟩, rfl⟩ := h
    exact ⟨.more first others, by simp [StmtTree.tokens]⟩
  · obtain ⟨_, _, rfl, ⟨d, rfl⟩, rfl⟩ := h
    exact ⟨.ofVarDecl d, by simp [StmtTree.tokens]⟩
  · obtain ⟨_, _, rfl, ⟨d, rfl⟩, rfl⟩ := h
    exact ⟨.ofStatement d, by simp [StmtTree.tokens]⟩
  · obtain ⟨keyword, _, rfl, name, _, rfl, semicolon, _, rfl, rfl⟩ := h
    exact ⟨.var keyword name semicolon, rfl⟩
  · obtain ⟨keyword, _, rfl, name, _, rfl, equal, _, rfl, _, _, rfl, ⟨initial, rfl⟩, semicolon, _,
      rfl, rfl⟩ := h
    exact ⟨.varInit keyword name equal initial semicolon, rfl⟩
  · obtain ⟨_, _, rfl, ⟨d, rfl⟩, rfl⟩ := h
    exact ⟨.ofExprStmt d, by simp [StmtTree.tokens]⟩
  · obtain ⟨_, _, rfl, ⟨d, rfl⟩, rfl⟩ := h
    exact ⟨.ofPrintStmt d, by simp [StmtTree.tokens]⟩
  · obtain ⟨_, _, rfl, ⟨d, rfl⟩, rfl⟩ := h
    exact ⟨.ofIfStmt d, by simp [StmtTree.tokens]⟩
  · obtain ⟨_, _, rfl, ⟨d, rfl⟩, rfl⟩ := h
    exact ⟨.ofBlock d, by simp [StmtTree.tokens]⟩
  · obtain ⟨_, _, rfl, ⟨e, rfl⟩, semicolon, _, rfl, rfl⟩ := h
    exact ⟨.exprStmt e semicolon, rfl⟩
  · obtain ⟨keyword, _, rfl, _, _, rfl, ⟨e, rfl⟩, semicolon, _, rfl, rfl⟩ := h
    exact ⟨.printStmt keyword e semicolon, rfl⟩
  · obtain ⟨keyword, _, rfl, opening, _, rfl, _, _, rfl, ⟨condition, rfl⟩, closing, _, rfl, _, _,
      rfl, ⟨consequence, rfl⟩, rfl⟩ := h
    exact ⟨.ifThen keyword opening condition closing consequence, by simp [StmtTree.tokens]⟩
  · obtain ⟨keyword, _, rfl, opening, _, rfl, _, _, rfl, ⟨condition, rfl⟩, closing, _, rfl, _, _,
      rfl, ⟨consequence, rfl⟩, otherwise, _, rfl, _, _, rfl, ⟨alternative, rfl⟩, rfl⟩ := h
    exact ⟨.ifElse keyword opening condition closing consequence otherwise alternative,
      by simp [StmtTree.tokens]⟩
  · obtain ⟨opening, _, rfl, _, _, rfl, ⟨body, rfl⟩, closing, _, rfl, rfl⟩ := h
    exact ⟨.block opening body closing, rfl⟩

/-- Trees are built by the productions of a level. -/
lemma hasTree_of_levelProduction {l : Level} {r : ContextFreeRule Kind Nonterminal}
    (hr : r ∈ levelProductions l) {ts : List Token} (h : Spells r.output ts) :
    r.input.HasTree ts := by
  rw [levelProductions, List.mem_cons, List.mem_map] at hr
  rcases hr with rfl | ⟨k, hk, rfl⟩
  · obtain ⟨_, _, rfl, ⟨e, rfl⟩, rfl⟩ := h
    exact ⟨.ofOperand e, by simp [ExprTree.tokens]⟩
  · obtain ⟨_, _, rfl, ⟨left, rfl⟩, operator, _, rfl, _, _, rfl, ⟨right, rfl⟩, rfl⟩ := h
    have hoperator : operator.1.kind ∈ l.operators := by
      rw [List.mem_singleton.1 operator.2]
      exact hk
    exact ⟨.binary left ⟨operator.1, hoperator⟩ right, by simp [ExprTree.tokens]⟩

/-- Trees are built by the productions of expressions. -/
lemma hasTree_of_exprProduction {r : ContextFreeRule Kind Nonterminal} (hr : r ∈ exprProductions)
    {ts : List Token} (h : Spells r.output ts) : r.input.HasTree ts := by
  rw [exprProductions] at hr
  simp only [List.mem_append, List.mem_cons, List.not_mem_nil, or_false, List.mem_map] at hr
  rcases hr with (((((((((rfl | rfl | rfl) | hr) | hr) | hr) | hr) | ⟨k, hk, rfl⟩) | rfl) |
    ⟨k, hk, rfl⟩) | rfl | rfl)
  · obtain ⟨_, _, rfl, ⟨e, rfl⟩, rfl⟩ := h
    exact ⟨.expression e, by simp [ExprTree.tokens]⟩
  · obtain ⟨target, _, rfl, equal, _, rfl, _, _, rfl, ⟨value, rfl⟩, rfl⟩ := h
    exact ⟨.assign target equal value, by simp [ExprTree.tokens]⟩
  · obtain ⟨_, _, rfl, ⟨e, rfl⟩, rfl⟩ := h
    exact ⟨.ofEquality e, by simp [ExprTree.tokens]⟩
  · exact hasTree_of_levelProduction hr h
  · exact hasTree_of_levelProduction hr h
  · exact hasTree_of_levelProduction hr h
  · exact hasTree_of_levelProduction hr h
  · obtain ⟨operator, _, rfl, _, _, rfl, ⟨right, rfl⟩, rfl⟩ := h
    have hoperator : operator.1.kind ∈ unaryOperators := by
      rw [List.mem_singleton.1 operator.2]
      simpa using hk
    exact ⟨.unary ⟨operator.1, hoperator⟩ right, by simp [ExprTree.tokens]⟩
  · obtain ⟨_, _, rfl, ⟨e, rfl⟩, rfl⟩ := h
    exact ⟨.ofPrimary e, by simp [ExprTree.tokens]⟩
  · obtain ⟨token, _, rfl, rfl⟩ := h
    have htoken : token.1.kind ∈ literalKinds := by
      rw [List.mem_singleton.1 token.2]
      simpa using hk
    exact ⟨.literal ⟨token.1, htoken⟩, rfl⟩
  · obtain ⟨token, _, rfl, rfl⟩ := h
    exact ⟨.name token, rfl⟩
  · obtain ⟨opening, _, rfl, _, _, rfl, ⟨inner, rfl⟩, closing, _, rfl, rfl⟩ := h
    exact ⟨.grouping opening inner closing, rfl⟩

/-- One step of a derivation, read backwards, puts the pieces of its right side together to the tree
of its left side. -/
lemma spells_of_produces {u v : List (Symbol Kind Nonterminal)} (h : lox.Produces u v)
    {ts : List Token} (hv : Spells v ts) : Spells u ts := by
  obtain ⟨r, hr, hrewrites⟩ := h
  obtain ⟨p, q, rfl, rfl⟩ := hrewrites.exists_parts
  obtain ⟨_, ws, rfl, hpr, hq⟩ := spells_append.1 hv
  obtain ⟨us, vs, rfl, hp, houtput⟩ := spells_append.1 hpr
  have htree : r.input.HasTree vs := by
    rcases List.mem_append.1 (mem_rules.1 hr) with hr | hr
    · exact hasTree_of_stmtProduction hr houtput
    · exact hasTree_of_exprProduction hr houtput
  have hinput : Spells [.nonterminal r.input] vs :=
    ⟨vs, [], (List.append_nil vs).symm, htree, rfl⟩
  exact spells_append.2 ⟨us ++ vs, ws, rfl, spells_append.2 ⟨us, vs, rfl, hp, hinput⟩, hq⟩

/-- What derives the kinds of the tokens is spelt by them. -/
lemma spells_of_derives {u : List (Symbol Kind Nonterminal)} {ts : List Token}
    (h : lox.Derives u (symbols ts)) : Spells u ts := by
  induction h using Relation.ReflTransGen.head_induction_on with
  | refl => exact spells_symbols ts
  | head hstep _ ih => exact spells_of_produces hstep ih

/-- The kinds of the tokens are a word of the language exactly when the tokens have a derivation
tree. -/
theorem mem_language_iff_exists_tree (ts : List Token) :
    ts.map Token.kind ∈ lox.language ↔ ∃ D : StmtTree .program, D.tokens = ts := by
  have hderives : lox.Derives [stmt .program] (symbols ts) ↔ ∃ D : StmtTree .program,
      D.tokens = ts := by
    constructor
    · intro h
      obtain ⟨us, vs, rfl, htree, rfl⟩ := spells_of_derives h
      rw [List.append_nil]
      exact htree
    · rintro ⟨D, rfl⟩
      exact D.derives
  have hsymbols : symbols ts = (ts.map Token.kind).map Symbol.terminal := by
    rw [List.map_map]
    rfl
  rw [hsymbols] at hderives
  exact hderives

end LoxScript.Grammar
