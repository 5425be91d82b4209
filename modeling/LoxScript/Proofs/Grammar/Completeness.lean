import LoxScript.Proofs.Grammar.Soundness

/-!
# What is derived is read

The converse of soundness.  A derivation tree whose tokens stand at the front of a text is read back
by the parser of its category, with just these tokens, as long as what follows could not have been
part of it: an expression must not be followed by an operator that would extend it, and a statement
must be settled before what follows.

The bounds of the parsers are never reached: three steps for each token, and a few more, suffice.
-/

namespace LoxScript.Grammar

open LoxScript.Parser

/-! ### Expressions -/

/-- The kinds of token that would extend an expression of the category. -/
def ExprCategory.continuations : ExprCategory → List Kind
  | .unary | .primary => []
  | .level .factor => Level.factor.operators
  | .level .term => Level.term.operators ++ Level.factor.operators
  | .level .comparison =>
    Level.comparison.operators ++ (Level.term.operators ++ Level.factor.operators)
  | .level .equality => Level.equality.operators ++
    (Level.comparison.operators ++ (Level.term.operators ++ Level.factor.operators))
  | .assignment | .expression => .sign .equal :: (Level.equality.operators ++
    (Level.comparison.operators ++ (Level.term.operators ++ Level.factor.operators)))

/-- What would extend an expression of a level are its operators and what would extend the last
operand. -/
lemma continuations_level (l : Level) :
    (ExprCategory.level l).continuations = l.operators ++ l.operand.continuations := by
  cases l <;> rfl

/-- How many steps down the parser of the category is from that of a primary expression. -/
def ExprCategory.slack : ExprCategory → Nat
  | .primary => 0
  | .unary | .level _ => 1
  | .assignment => 2
  | .expression => 3

@[simp] lemma slack_operand (l : Level) : l.operand.slack = 1 := by
  cases l <;> rfl

namespace ExprTree

/-- How many operators of the tree's own level stand on its left edge. -/
def spine : {c : ExprCategory} → ExprTree c → Nat
  | _, binary left _ _ => left.spine + 1
  | _, _ => 0

/-- A tree has at least as many tokens as it has operators. -/
lemma spine_lt_length {c : ExprCategory} (D : ExprTree c) : D.spine < D.tokens.length := by
  induction D with
  | binary left operator right ihl ihr =>
    simp only [spine, tokens, List.length_append, List.length_cons]
    omega
  | expression e | ofEquality e | ofOperand e | ofPrimary e =>
    exact List.length_pos_iff.2 e.tokens_ne_nil
  | assign | unary | literal | name | grouping => simp [spine, tokens]

/-- The parser of its category reads the tree back. -/
def Reads {c : ExprCategory} (D : ExprTree c) : Prop :=
  ∀ ⦃fuel : Nat⦄, 3 * D.tokens.length + c.slack ≤ fuel + 1 → ∀ ⦃rest : List Token⦄,
    ¬ Starts c.continuations rest → (c.parser fuel (D.tokens ++ rest)).result = .ok (D.value, rest)

/-- Reading operands of the level one after the other comes to the end of the tree, and goes on from
there. -/
def Feeds {l : Level} (D : ExprTree (.level l)) : Prop :=
  ∀ ⦃fuel : Nat⦄, 3 * D.tokens.length + 1 ≤ fuel + 1 → ∀ ⦃rest : List Token⦄,
    ¬ Starts l.operand.continuations rest → ∀ k,
      ((l.operand.parser fuel >>= chain l.operators (l.operand.parser fuel) (D.spine + k))
        (D.tokens ++ rest)).result
        = (chain l.operators (l.operand.parser fuel) k D.value rest).result

/-- What the induction over trees shows: a tree of a binary level can be read on from, any other one
is read back. -/
def Completes : {c : ExprCategory} → ExprTree c → Prop
  | .level _, D => D.Feeds
  | .expression, D | .assignment, D | .unary, D | .primary, D => D.Reads

end ExprTree

/-- Where no operator of the level comes next, no further operand is read. -/
lemma result_chain_of_not_starts {operators : List Kind} {operand : Parser Expr} {rest : List Token}
    (h : ¬ Starts operators rest) (fuel : Nat) (left : Expr) :
    (chain operators operand fuel left rest).result = .ok (left, rest) := by
  cases fuel with
  | zero => rfl
  | succ fuel => rw [chain, result_bind_of_ok (result_accept?_of_not_starts h)]; rfl

/-- One of two lists of kinds. -/
lemma starts_append_kinds {kinds kinds' : List Kind} {ts : List Token} :
    Starts (kinds ++ kinds') ts ↔ Starts kinds ts ∨ Starts kinds' ts := by
  cases ts with
  | nil => simp
  | cons t ts => simp

/-- A tree that can be read on from is read back where nothing extends it. -/
lemma ExprTree.Feeds.reads {l : Level} {D : ExprTree (.level l)} (h : D.Feeds) : D.Reads := by
  intro fuel hfuel rest hrest
  rw [continuations_level, starts_append_kinds, not_or] at hrest
  have hspine : D.spine < D.tokens.length := D.spine_lt_length
  have hfuel' : 3 * D.tokens.length + 1 ≤ fuel + 1 := hfuel
  have hk : fuel = D.spine + (fuel - D.spine) := by omega
  rw [parser_level, level, result_traced]
  calc _ = ((l.operand.parser fuel >>= chain l.operators (l.operand.parser fuel)
          (D.spine + (fuel - D.spine))) (D.tokens ++ rest)).result := by rw [← hk]; rfl
    _ = (chain l.operators (l.operand.parser fuel) (fuel - D.spine) D.value rest).result :=
        h hfuel' hrest.2 _
    _ = .ok (D.value, rest) := result_chain_of_not_starts hrest.1 _ _

lemma ExprTree.Completes.reads {c : ExprCategory} {D : ExprTree c} (h : D.Completes) :
    D.Reads := by
  cases c with
  | level l => exact ExprTree.Feeds.reads h
  | expression | assignment | unary | primary => exact h

namespace ExprTree

/-! One lemma for each production. -/

lemma completes_expression {e : ExprTree .assignment} (h : e.Completes) :
    (expression e).Completes := by
  intro fuel hfuel rest hrest
  cases fuel with
  | zero => simp [ExprCategory.slack] at hfuel
  | succ fuel =>
    have hfuel' : 3 * e.tokens.length + 2 ≤ fuel + 1 := by
      simp only [tokens, ExprCategory.slack] at hfuel
      omega
    rw [ExprCategory.parser, Grammar.expression, result_traced]
    exact h.reads hfuel' hrest

lemma completes_ofOperand {l : Level} {e : ExprTree l.operand} (h : e.Completes) :
    (ofOperand e).Completes := by
  intro fuel hfuel rest hrest k
  have hfuel' : 3 * e.tokens.length + l.operand.slack ≤ fuel + 1 := by
    rw [slack_operand]
    exact hfuel
  have hread : (l.operand.parser fuel (e.tokens ++ rest)).result = .ok (e.value, rest) :=
    h.reads hfuel' hrest
  have hspine : (ofOperand e).spine + k = k := Nat.zero_add k
  rw [hspine]
  exact result_bind_of_ok hread

/-- No operator extends an operand of its own level. -/
lemma not_mem_continuations_operand {l : Level} {kind : Kind} (h : kind ∈ l.operators) :
    kind ∉ l.operand.continuations := by
  cases l <;> revert h <;>
    simp only [Level.operators, Level.signs, Level.operand, ExprCategory.continuations,
      List.map_cons, List.map_nil, List.mem_cons, List.not_mem_nil, or_false] <;>
    rintro h <;> rcases h with rfl | rfl | rfl | rfl <;> decide

lemma completes_binary {l : Level} {left : ExprTree (.level l)} {operator : Word l.operators}
    {right : ExprTree l.operand} (hleft : left.Completes) (hright : right.Completes) :
    (binary left operator right).Completes := by
  intro fuel hfuel rest hrest k
  simp only [tokens, List.length_append, List.length_cons] at hfuel
  have hfuelLeft : 3 * left.tokens.length + 1 ≤ fuel + 1 := by omega
  have hfuelRight : 3 * right.tokens.length + l.operand.slack ≤ fuel + 1 := by
    rw [slack_operand]
    omega
  have hoperator : ¬ Starts l.operand.continuations (operator.1 :: (right.tokens ++ rest)) := by
    rw [starts_cons]
    exact not_mem_continuations_operand operator.2
  have hread : (l.operand.parser fuel (right.tokens ++ rest)).result = .ok (right.value, rest) :=
    hright.reads hfuelRight hrest
  -- The left part is followed by the operator, which is the first to be read on from there.
  have hfeed := hleft hfuelLeft hoperator (k + 1)
  have hsplit : (binary left operator right).tokens ++ rest
      = left.tokens ++ operator.1 :: (right.tokens ++ rest) := by
    simp [tokens]
  rw [hsplit, spine, Nat.add_right_comm, Nat.add_assoc, hfeed, chain,
    result_bind_of_ok (result_accept?_cons operator.2)]
  exact result_bind_of_ok hread

lemma completes_ofEquality {e : ExprTree (.level .equality)} (h : e.Completes) :
    (ofEquality e).Completes := by
  intro fuel hfuel rest hrest
  cases fuel with
  | zero =>
    have := List.length_pos_iff.2 e.tokens_ne_nil
    simp only [tokens, ExprCategory.slack] at hfuel
    omega
  | succ fuel =>
    have hfuel' : 3 * e.tokens.length + 1 ≤ fuel + 1 := by
      simp only [tokens, ExprCategory.slack] at hfuel
      omega
    have hequality : ¬ Starts (ExprCategory.level .equality).continuations rest := by
      intro hstarts
      apply hrest
      obtain ⟨t, ht, hkind⟩ := hstarts
      exact ⟨t, ht, List.mem_cons_of_mem _ hkind⟩
    have hequal : ¬ Starts [.sign .equal] rest := by
      intro hstarts
      apply hrest
      obtain ⟨t, ht, hkind⟩ := hstarts
      exact ⟨t, ht, List.mem_cons.2 (.inl (List.mem_singleton.1 hkind))⟩
    have hread := h.reads hfuel' hequality
    rw [ExprCategory.parser, Grammar.assignment, result_traced, tokens]
    rw [ExprCategory.parser] at hread
    rw [result_bind_of_ok hread, result_bind_of_ok result_unread,
      result_bind_of_ok (result_accept?_of_not_starts hequal)]
    rfl

lemma completes_literal (token : Word literalKinds) : (literal token).Completes := by
  intro fuel _ rest _
  rw [ExprCategory.parser, primary, result_traced, tokens, List.singleton_append,
    result_bind_of_ok (result_accept?_cons token.2)]
  rfl

lemma completes_name (token : Word [.identifier]) : (name token).Completes := by
  intro fuel _ rest _
  have hkind : token.1.kind = .identifier := List.mem_singleton.1 token.2
  have hliteral : ¬ Starts literalKinds (token.1 :: rest) := by
    rw [starts_cons, hkind]
    decide
  rw [ExprCategory.parser, primary, result_traced, tokens, List.singleton_append,
    result_bind_of_ok (result_accept?_of_not_starts hliteral),
    result_bind_of_ok (result_accept?_cons token.2)]
  rfl

lemma completes_grouping {opening : Word [.sign .leftParen]} {inner : ExprTree .expression}
    {closing : Word [.sign .rightParen]} (h : inner.Completes) :
    (grouping opening inner closing).Completes := by
  intro fuel hfuel rest _
  have hkind : opening.1.kind = .sign .leftParen := List.mem_singleton.1 opening.2
  have hclosing : closing.1.kind = .sign .rightParen := List.mem_singleton.1 closing.2
  have hfuel' : 3 * inner.tokens.length + 3 ≤ fuel + 1 := by
    simp only [tokens, ExprCategory.slack, List.length_cons, List.length_append,
      List.length_nil] at hfuel
    omega
  have hliteral : ¬ Starts literalKinds (opening.1 :: (inner.tokens ++ closing.1 :: rest)) := by
    rw [starts_cons, hkind]
    decide
  have hname : ¬ Starts [.identifier] (opening.1 :: (inner.tokens ++ closing.1 :: rest)) := by
    rw [starts_cons, hkind]
    decide
  have hstop : ¬ Starts ExprCategory.expression.continuations (closing.1 :: rest) := by
    rw [starts_cons, hclosing]
    decide
  have hread := h.reads hfuel' hstop
  have hsplit : (grouping opening inner closing).tokens ++ rest
      = opening.1 :: (inner.tokens ++ closing.1 :: rest) := by
    simp [tokens]
  rw [ExprCategory.parser] at hread
  rw [ExprCategory.parser, primary, result_traced, hsplit,
    result_bind_of_ok (result_accept?_of_not_starts hliteral),
    result_bind_of_ok (result_accept?_of_not_starts hname),
    result_bind_of_ok (result_accept?_cons opening.2),
    result_bind_of_ok hread, result_bind_of_ok (result_expect_cons hclosing)]
  rfl

lemma completes_ofPrimary {e : ExprTree .primary} (h : e.Completes)
    (hstart : ¬ Starts unaryOperators e.tokens) : (ofPrimary e).Completes := by
  intro fuel hfuel rest hrest
  cases fuel with
  | zero =>
    have := List.length_pos_iff.2 e.tokens_ne_nil
    simp only [tokens, ExprCategory.slack] at hfuel
    omega
  | succ fuel =>
    have hfuel' : 3 * e.tokens.length + 0 ≤ fuel + 1 := by
      simp only [tokens, ExprCategory.slack] at hfuel
      omega
    have hoperator : ¬ Starts unaryOperators (e.tokens ++ rest) := by
      rwa [starts_append_of_ne_nil e.tokens_ne_nil]
    rw [ExprCategory.parser, Grammar.unary, result_traced, tokens,
      result_bind_of_ok (result_accept?_of_not_starts hoperator)]
    exact h.reads hfuel' hrest

lemma completes_unary {operator : Word unaryOperators} {right : ExprTree .unary}
    (h : right.Completes) : (unary operator right).Completes := by
  intro fuel hfuel rest hrest
  cases fuel with
  | zero =>
    simp only [tokens, ExprCategory.slack, List.length_cons] at hfuel
    omega
  | succ fuel =>
    have hfuel' : 3 * right.tokens.length + 1 ≤ fuel + 1 := by
      simp only [tokens, ExprCategory.slack, List.length_cons] at hfuel
      omega
    have hread := h.reads hfuel' hrest
    rw [ExprCategory.parser] at hread
    rw [ExprCategory.parser, Grammar.unary, result_traced, tokens, List.cons_append,
      result_bind_of_ok (result_accept?_cons operator.2), result_bind_of_ok hread]
    rfl

/-- A primary expression does not start with an operator. -/
lemma not_starts_unaryOperators (e : ExprTree .primary) : ¬ Starts unaryOperators e.tokens := by
  have hdisjoint : ∀ k ∈ literalKinds ++ [.identifier, .sign .leftParen],
      k ∉ unaryOperators := by decide
  cases e with
  | literal token =>
    rw [tokens, starts_cons]
    exact hdisjoint _ (List.mem_append_left _ token.2)
  | name token =>
    rw [tokens, starts_cons, List.mem_singleton.1 token.2]
    decide
  | grouping opening inner closing =>
    rw [tokens, starts_cons, List.mem_singleton.1 opening.2]
    decide

/-- A name, as an operand of the loosest level. -/
def ofName (token : Word [.identifier]) : ExprTree (.level .equality) :=
  ofOperand (l := .equality) (ofOperand (l := .comparison) (ofOperand (l := .term)
    (ofOperand (l := .factor) (ofPrimary (name token)))))

lemma completes_ofName (token : Word [.identifier]) : (ofName token).Completes := by
  have hprimary := completes_ofPrimary (completes_name token) (not_starts_unaryOperators _)
  have hfactor := completes_ofOperand (l := .factor) hprimary
  have hterm := completes_ofOperand (l := .term) hfactor
  have hcomparison := completes_ofOperand (l := .comparison) hterm
  exact completes_ofOperand (l := .equality) hcomparison

lemma completes_assign {target : Word [.identifier]} {equal : Word [.sign .equal]}
    {value : ExprTree .assignment} (h : value.Completes) :
    (assign target equal value).Completes := by
  intro fuel hfuel rest hrest
  have hpos := List.length_pos_iff.2 value.tokens_ne_nil
  simp only [tokens, ExprCategory.slack, List.length_cons] at hfuel
  cases fuel with
  | zero => omega
  | succ fuel =>
    have hequal : equal.1.kind = .sign .equal := List.mem_singleton.1 equal.2
    have hstop : ¬ Starts (ExprCategory.level .equality).continuations
        (equal.1 :: (value.tokens ++ rest)) := by
      rw [starts_cons, hequal]
      decide
    have hfuelName : 3 * (ofName target).tokens.length + 1 ≤ fuel + 1 := by
      have : (ofName target).tokens.length = 1 := rfl
      omega
    have hname : (Grammar.equality (Grammar.unary fuel) fuel
        ((ofName target).tokens ++ equal.1 :: (value.tokens ++ rest))).result
          = .ok (.name target.1, equal.1 :: (value.tokens ++ rest)) :=
      (completes_ofName target).reads hfuelName hstop
    have hfuelValue : 3 * value.tokens.length + 2 ≤ fuel + 1 := by omega
    have hvalue : (Grammar.assignment fuel (value.tokens ++ rest)).result
        = .ok (value.value, rest) := h.reads hfuelValue hrest
    have hsplit : (assign target equal value).tokens ++ rest
        = (ofName target).tokens ++ equal.1 :: (value.tokens ++ rest) := rfl
    rw [ExprCategory.parser, Grammar.assignment, result_traced, hsplit,
      result_bind_of_ok hname, result_bind_of_ok result_unread,
      result_bind_of_ok (result_accept?_cons equal.2), result_bind_of_ok hvalue]
    rfl

theorem completes {c : ExprCategory} (D : ExprTree c) : D.Completes := by
  induction D with
  | expression e ih => exact completes_expression ih
  | assign target equal value ih => exact completes_assign ih
  | ofEquality e ih => exact completes_ofEquality ih
  | ofOperand e ih => exact completes_ofOperand ih
  | binary left operator right ihl ihr => exact completes_binary ihl ihr
  | unary operator right ih => exact completes_unary ih
  | ofPrimary e ih => exact completes_ofPrimary ih (not_starts_unaryOperators e)
  | literal token => exact completes_literal token
  | name token => exact completes_name token
  | grouping opening inner closing ih => exact completes_grouping ih

end ExprTree

/-- An expression is read back before a token that does not extend it. -/
lemma result_expression {e : ExprTree .expression} {fuel : Nat}
    (hfuel : 3 * e.tokens.length + 2 ≤ fuel) {rest : List Token}
    (hrest : ¬ Starts ExprCategory.expression.continuations rest) :
    (expression fuel (e.tokens ++ rest)).result = .ok (e.value, rest) :=
  e.completes.reads (Nat.succ_le_succ hfuel) hrest

/-! ### How phrases start -/

/-- The kinds of token with which an expression starts. -/
abbrev expressionStarts : List Kind :=
  literalKinds ++ [.identifier, .sign .leftParen] ++ unaryOperators

/-- The kinds of token with which a statement starts. -/
abbrev statementStarts : List Kind :=
  expressionStarts ++ [.keyword .ifWord, .keyword .printWord, .sign .leftBrace]

lemma Starts.mono {kinds kinds' : List Kind} {ts : List Token} (h : Starts kinds ts)
    (hsub : kinds ⊆ kinds') : Starts kinds' ts := by
  obtain ⟨t, ht, hkind⟩ := h
  exact ⟨t, ht, hsub hkind⟩

/-- A text that starts with one of some kinds starts with none that is different from them all. -/
lemma Starts.not_of_disjoint {kinds kinds' : List Kind} {ts : List Token} (h : Starts kinds ts)
    (hdisjoint : ∀ k ∈ kinds, k ∉ kinds') : ¬ Starts kinds' ts := by
  rintro ⟨u, hu, hu'⟩
  obtain ⟨t, ht, hkind⟩ := h
  obtain rfl : t = u := Option.some.inj ((Option.mem_def.1 ht).symm.trans (Option.mem_def.1 hu))
  exact hdisjoint _ hkind hu'

/-- How a text starts does not change when something is added at its end. -/
lemma Starts.append {kinds : List Kind} {ts : List Token} (h : Starts kinds ts)
    (us : List Token) : Starts kinds (ts ++ us) := by
  cases ts with
  | nil => exact absurd h not_starts_nil
  | cons t ts => simpa using h

lemma ExprTree.starts {c : ExprCategory} (e : ExprTree c) : Starts expressionStarts e.tokens := by
  induction e with
  | expression e ih => exact ih
  | ofEquality e ih => exact ih
  | ofOperand e ih => exact ih
  | ofPrimary e ih => exact ih
  | binary left operator right ihl ihr => exact ihl.append _
  | assign target equal value ih =>
    rw [tokens, starts_cons, List.mem_singleton.1 target.2]
    decide
  | unary operator right ih =>
    rw [tokens, starts_cons]
    exact List.mem_append_right _ operator.2
  | literal token =>
    rw [tokens, starts_cons]
    exact List.mem_append_left _ (List.mem_append_left _ token.2)
  | name token =>
    rw [tokens, starts_cons, List.mem_singleton.1 token.2]
    decide
  | grouping opening inner closing ih =>
    rw [tokens, starts_cons, List.mem_singleton.1 opening.2]
    decide

/-- Is the category one of a single declaration or statement? -/
def StmtCategory.isSingle : StmtCategory → Bool
  | program | declarations => false
  | _ => true

/-- The kinds of token with which a single declaration or statement starts. -/
abbrev StmtCategory.starts : StmtCategory → List Kind
  | program | declarations => []
  | declaration => .keyword .varWord :: statementStarts
  | varDecl => [.keyword .varWord]
  | statement | exprStmt | printStmt | ifStmt | block => statementStarts

lemma StmtTree.starts {c : StmtCategory} (D : StmtTree c) (h : c.isSingle) :
    Starts c.starts D.tokens := by
  induction D with
  | program | nothing | more => cases h
  | ofVarDecl d ih => exact (ih rfl).mono (List.cons_subset_cons _ (List.nil_subset _))
  | ofStatement d ih => exact (ih rfl).mono (List.subset_cons_self _ _)
  | ofExprStmt d ih => exact ih rfl
  | ofPrintStmt d ih => exact ih rfl
  | ofIfStmt d ih => exact ih rfl
  | ofBlock d ih => exact ih rfl
  | exprStmt e semicolon => exact (e.starts.mono (List.subset_append_left _ _)).append _
  | var keyword | varInit keyword | printStmt keyword | ifThen keyword | ifElse keyword =>
    rw [tokens, starts_cons, List.mem_singleton.1 keyword.2]
    decide
  | block opening =>
    rw [tokens, starts_cons, List.mem_singleton.1 opening.2]
    decide

lemma StmtTree.tokens_ne_nil {c : StmtCategory} (D : StmtTree c) (h : c.isSingle) :
    D.tokens ≠ [] := by
  intro hnil
  have hstarts := D.starts h
  rw [hnil] at hstarts
  exact not_starts_nil hstarts

/-! ### Statements -/

namespace StmtTree

/-- The parser of its category reads the tree back, where it is settled.  Declarations are read up
to the end of the text or to a closing token. -/
def Reads : {c : StmtCategory} → StmtTree c → Prop
  | .program, _ => True
  | .declarations, D => ∀ ⦃fuel : Nat⦄, 3 * D.tokens.length + 2 ≤ fuel →
      ∀ ⦃closing : List Kind⦄, closing ⊆ [.sign .rightBrace] →
        ∀ ⦃rest : List Token⦄, rest = [] ∨ Starts closing rest → D.Settled rest →
          (declarations .failFast closing fuel (D.tokens ++ rest)).result = .ok (D.value, rest)
  | .declaration, D | .varDecl, D => ∀ ⦃fuel : Nat⦄, 3 * D.tokens.length + 1 ≤ fuel →
      ∀ ⦃rest : List Token⦄, D.Settled rest →
        (declaration .failFast fuel (D.tokens ++ rest)).result = .ok (some D.value, rest)
  | .statement, D | .exprStmt, D | .printStmt, D | .ifStmt, D | .block, D =>
      ∀ ⦃fuel : Nat⦄, 3 * D.tokens.length ≤ fuel → ∀ ⦃rest : List Token⦄, D.Settled rest →
        (statement .failFast fuel (D.tokens ++ rest)).result = .ok (D.value, rest)

/-- A token of one kind is none of the kinds in a list without it. -/
lemma not_starts_of_kind {kind : Kind} {kinds : List Kind} {t : Token} {rest : List Token}
    (ht : t.kind ∈ [kind]) (hkind : kind ∉ kinds) : ¬ Starts kinds (t :: rest) := by
  rw [starts_cons, List.mem_singleton.1 ht]
  exact hkind

lemma result_recovering_of_ok {p : Parser Stmt} {ts rest : List Token} {s : Stmt}
    (h : (p ts).result = .ok (s, rest)) :
    (recovering .failFast p ts).result = .ok (some s, rest) :=
  result_recovering_failFast.2 ⟨s, rfl, h⟩

lemma reads_nothing : nothing.Reads := by
  intro fuel hfuel closing _ rest hrest _
  cases fuel with
  | zero => omega
  | succ fuel =>
    rw [declarations, tokens, List.nil_append, result_bind_of_ok result_unread]
    cases rest with
    | nil => rfl
    | cons next rest =>
      have hnext : next.kind ∈ closing := by simpa using hrest
      simp only [hnext, if_true]
      rfl

lemma reads_more {first : StmtTree .declaration} {others : StmtTree .declarations}
    (hfirst : first.Reads) (hothers : others.Reads) : (more first others).Reads := by
  intro fuel hfuel closing hclosing rest hrest hsettled
  obtain ⟨hsettledFirst, hsettledOthers⟩ := hsettled
  have hstarts := first.starts rfl
  have hpos := List.length_pos_iff.2 (first.tokens_ne_nil rfl)
  simp only [tokens, List.length_append] at hfuel
  cases fuel with
  | zero => omega
  | succ fuel =>
    have hreadFirst : (declaration .failFast fuel (first.tokens ++ (others.tokens ++ rest))).result
        = .ok (some first.value, others.tokens ++ rest) := hfirst (by omega) hsettledFirst
    have hreadOthers : (declarations .failFast closing fuel (others.tokens ++ rest)).result
        = .ok (others.value, rest) := hothers (by omega) hclosing hrest hsettledOthers
    rw [declarations, tokens, List.append_assoc, result_bind_of_ok result_unread]
    cases htokens : first.tokens with
    | nil => exact absurd htokens (first.tokens_ne_nil rfl)
    | cons next ts =>
      rw [htokens, starts_cons] at hstarts
      have hnext : next.kind ∉ closing := by
        intro hmem
        have hbrace := List.mem_singleton.1 (hclosing hmem)
        rw [hbrace] at hstarts
        revert hstarts
        decide
      rw [htokens] at hreadFirst
      simp only [List.cons_append, hnext, if_false]
      rw [List.cons_append] at hreadFirst
      rw [result_bind_of_ok hreadFirst, result_bind_of_ok hreadOthers]
      rfl

lemma reads_ofStatement {d : StmtTree .statement} (h : d.Reads) : (ofStatement d).Reads := by
  intro fuel hfuel rest hsettled
  simp only [tokens] at hfuel
  cases fuel with
  | zero => omega
  | succ fuel =>
    have hstarts := (d.starts rfl).append rest
    have hvar : ¬ Starts [.keyword .varWord] (d.tokens ++ rest) :=
      hstarts.not_of_disjoint (by decide)
    rw [declaration, result_traced, tokens]
    apply result_recovering_of_ok
    rw [result_bind_of_ok (result_accept?_of_not_starts hvar)]
    exact h (by omega) hsettled

lemma reads_var (keyword : Word [.keyword .varWord]) (name : Word [.identifier])
    (semicolon : Word [.sign .semicolon]) : (var keyword name semicolon).Reads := by
  intro fuel hfuel rest _
  cases fuel with
  | zero => simp [tokens] at hfuel
  | succ fuel =>
    have hequal : ¬ Starts [.sign .equal] (semicolon.1 :: rest) :=
      not_starts_of_kind semicolon.2 (by decide)
    rw [declaration, result_traced]
    apply result_recovering_of_ok
    rw [tokens, List.cons_append, result_bind_of_ok (result_accept?_cons keyword.2)]
    dsimp only
    rw [varDeclaration, result_traced, List.cons_append,
      result_bind_of_ok (result_expect_cons (List.mem_singleton.1 name.2)),
      List.cons_append, List.nil_append,
      result_bind_of_ok (result_accept?_of_not_starts hequal)]
    dsimp only
    rw [result_bind_of_ok (result_expect_cons (List.mem_singleton.1 semicolon.2))]
    rfl

lemma reads_varInit (keyword : Word [.keyword .varWord]) (name : Word [.identifier])
    (equal : Word [.sign .equal]) (initial : ExprTree .expression)
    (semicolon : Word [.sign .semicolon]) :
    (varInit keyword name equal initial semicolon).Reads := by
  intro fuel hfuel rest _
  simp only [tokens, List.length_cons, List.length_append] at hfuel
  cases fuel with
  | zero => omega
  | succ fuel =>
    have hstop : ¬ Starts ExprCategory.expression.continuations (semicolon.1 :: rest) :=
      not_starts_of_kind semicolon.2 (by decide)
    have hread : (expression fuel (initial.tokens ++ semicolon.1 :: rest)).result
        = .ok (initial.value, semicolon.1 :: rest) := result_expression (by omega) hstop
    have hsplit : (varInit keyword name equal initial semicolon).tokens ++ rest
        = keyword.1 :: name.1 :: equal.1 :: (initial.tokens ++ semicolon.1 :: rest) := by
      simp [tokens]
    rw [declaration, result_traced, hsplit]
    apply result_recovering_of_ok
    rw [result_bind_of_ok (result_accept?_cons keyword.2)]
    dsimp only
    rw [varDeclaration, result_traced,
      result_bind_of_ok (result_expect_cons (List.mem_singleton.1 name.2)),
      result_bind_of_ok (result_accept?_cons equal.2)]
    dsimp only
    rw [result_bind_of_ok hread,
      result_bind_of_ok (result_expect_cons (List.mem_singleton.1 semicolon.2))]
    rfl

lemma reads_exprStmt (e : ExprTree .expression) (semicolon : Word [.sign .semicolon]) :
    (exprStmt e semicolon).Reads := by
  intro fuel hfuel rest _
  simp only [tokens, List.length_append, List.length_cons, List.length_nil] at hfuel
  cases fuel with
  | zero => omega
  | succ fuel =>
    have hstop : ¬ Starts ExprCategory.expression.continuations (semicolon.1 :: rest) :=
      not_starts_of_kind semicolon.2 (by decide)
    have hread : (expression fuel (e.tokens ++ semicolon.1 :: rest)).result
        = .ok (e.value, semicolon.1 :: rest) := result_expression (by omega) hstop
    have hstarts := e.starts.append (semicolon.1 :: rest)
    have hsplit : (exprStmt e semicolon).tokens ++ rest = e.tokens ++ semicolon.1 :: rest := by
      simp [tokens]
    rw [statement, result_traced, hsplit,
      result_bind_of_ok (result_accept?_of_not_starts (hstarts.not_of_disjoint (by decide)))]
    dsimp only
    rw [result_bind_of_ok (result_accept?_of_not_starts (hstarts.not_of_disjoint (by decide)))]
    dsimp only
    rw [result_bind_of_ok (result_accept?_of_not_starts (hstarts.not_of_disjoint (by decide)))]
    dsimp only
    rw [expressionStatement, result_traced, result_bind_of_ok result_unread,
      result_bind_of_ok hread,
      result_bind_of_ok (result_expect_cons (List.mem_singleton.1 semicolon.2)),
      e.headD_tokens_append]
    rfl

lemma reads_printStmt (keyword : Word [.keyword .printWord]) (e : ExprTree .expression)
    (semicolon : Word [.sign .semicolon]) : (printStmt keyword e semicolon).Reads := by
  intro fuel hfuel rest _
  simp only [tokens, List.length_append, List.length_cons, List.length_nil] at hfuel
  cases fuel with
  | zero => omega
  | succ fuel =>
    have hstop : ¬ Starts ExprCategory.expression.continuations (semicolon.1 :: rest) :=
      not_starts_of_kind semicolon.2 (by decide)
    have hread : (expression fuel (e.tokens ++ semicolon.1 :: rest)).result
        = .ok (e.value, semicolon.1 :: rest) := result_expression (by omega) hstop
    have hsplit : (printStmt keyword e semicolon).tokens ++ rest
        = keyword.1 :: (e.tokens ++ semicolon.1 :: rest) := by
      simp [tokens]
    rw [statement, result_traced, hsplit,
      result_bind_of_ok (result_accept?_of_not_starts (not_starts_of_kind keyword.2 (by decide)))]
    dsimp only
    rw [result_bind_of_ok (result_accept?_cons keyword.2)]
    dsimp only
    rw [printStatement, result_traced, result_bind_of_ok hread,
      result_bind_of_ok (result_expect_cons (List.mem_singleton.1 semicolon.2))]
    rfl

/-- The rest of a conditional statement, after its consequence. -/
def afterConsequence (p : Parser Stmt) (keyword : Token) (condition : Expr) (consequence : Stmt) :
    Parser Stmt := do
  match ← accept? [.keyword .elseWord] with
  | some _ =>
    let alternative ← p
    pure (.ifElse keyword condition consequence alternative)
  | none => pure (.ifThen keyword condition consequence)

lemma result_statement_ifStatement {keyword : Word [.keyword .ifWord]} (fuel : Nat)
    (ts : List Token) :
    (statement .failFast (fuel + 1) (keyword.1 :: ts)).result =
      (ifStatement (statement .failFast fuel) fuel keyword.1 ts).result := by
  rw [statement, result_traced, result_bind_of_ok (result_accept?_cons keyword.2)]

/-- After its condition, a conditional statement is read on from its consequence. -/
lemma result_ifStatement_condition {p : Parser Stmt} {fuel : Nat} {keyword : Token}
    {opening : Word [.sign .leftParen]} {condition : ExprTree .expression}
    {closing : Word [.sign .rightParen]} (hfuel : 3 * condition.tokens.length + 2 ≤ fuel)
    (mid : List Token) :
    (ifStatement p fuel keyword (opening.1 :: (condition.tokens ++ closing.1 :: mid))).result =
      ((p >>= afterConsequence p keyword condition.value) mid).result := by
  have hstop : ¬ Starts ExprCategory.expression.continuations (closing.1 :: mid) :=
    not_starts_of_kind closing.2 (by decide)
  rw [ifStatement, result_traced,
    result_bind_of_ok (result_expect_cons (List.mem_singleton.1 opening.2)),
    result_bind_of_ok (result_expression hfuel hstop),
    result_bind_of_ok (result_expect_cons (List.mem_singleton.1 closing.2))]
  rfl

lemma result_afterConsequence_of_not_starts {p : Parser Stmt} {keyword : Token} {condition : Expr}
    {consequence : Stmt} {rest : List Token} (h : ¬ Starts [.keyword .elseWord] rest) :
    (afterConsequence p keyword condition consequence rest).result =
      .ok (.ifThen keyword condition consequence, rest) := by
  rw [afterConsequence, result_bind_of_ok (result_accept?_of_not_starts h)]
  rfl

lemma reads_ifThen {keyword : Word [.keyword .ifWord]} {opening : Word [.sign .leftParen]}
    {condition : ExprTree .expression} {closing : Word [.sign .rightParen]}
    {consequence : StmtTree .statement} (h : consequence.Reads) :
    (ifThen keyword opening condition closing consequence).Reads := by
  intro fuel hfuel rest hsettled
  obtain ⟨helse, hsettled⟩ := hsettled
  simp only [tokens, List.length_append, List.length_cons] at hfuel
  cases fuel with
  | zero => omega
  | succ fuel =>
    have hconsequence := h (by omega : 3 * consequence.tokens.length ≤ fuel) hsettled
    have hsplit : (ifThen keyword opening condition closing consequence).tokens ++ rest
        = keyword.1 :: opening.1 :: (condition.tokens ++ closing.1 ::
          (consequence.tokens ++ rest)) := by
      simp [tokens]
    rw [hsplit, result_statement_ifStatement, result_ifStatement_condition (by omega),
      result_bind_of_ok hconsequence, result_afterConsequence_of_not_starts helse]
    rfl

lemma reads_ifElse {keyword : Word [.keyword .ifWord]} {opening : Word [.sign .leftParen]}
    {condition : ExprTree .expression} {closing : Word [.sign .rightParen]}
    {consequence : StmtTree .statement} {otherwise : Word [.keyword .elseWord]}
    {alternative : StmtTree .statement} (hthen : consequence.Reads) (helse : alternative.Reads) :
    (ifElse keyword opening condition closing consequence otherwise alternative).Reads := by
  intro fuel hfuel rest hsettled
  obtain ⟨hsettledThen, hsettledElse⟩ := hsettled
  simp only [tokens, List.length_append, List.length_cons] at hfuel
  cases fuel with
  | zero => omega
  | succ fuel =>
    have hconsequence :=
      hthen (by omega : 3 * consequence.tokens.length ≤ fuel) hsettledThen
    have halternative :=
      helse (by omega : 3 * alternative.tokens.length ≤ fuel) hsettledElse
    have hsplit : (ifElse keyword opening condition closing consequence otherwise
        alternative).tokens ++ rest
        = keyword.1 :: opening.1 :: (condition.tokens ++ closing.1 ::
          (consequence.tokens ++ otherwise.1 :: (alternative.tokens ++ rest))) := by
      simp [tokens]
    rw [hsplit, result_statement_ifStatement, result_ifStatement_condition (by omega),
      result_bind_of_ok hconsequence, afterConsequence,
      result_bind_of_ok (result_accept?_cons otherwise.2)]
    dsimp only
    rw [result_bind_of_ok halternative]
    rfl

lemma reads_block {opening : Word [.sign .leftBrace]} {body : StmtTree .declarations}
    {closing : Word [.sign .rightBrace]} (h : body.Reads) : (block opening body closing).Reads := by
  intro fuel hfuel rest hsettled
  simp only [tokens, List.length_append, List.length_cons, List.length_nil] at hfuel
  cases fuel with
  | zero => omega
  | succ fuel =>
    have hbody : (declarations .failFast [.sign .rightBrace] fuel
        (body.tokens ++ closing.1 :: rest)).result = .ok (body.value, closing.1 :: rest) :=
      h (by omega) (List.Subset.refl _) (.inr (starts_cons.2 closing.2)) hsettled
    have hsplit : (block opening body closing).tokens ++ rest
        = opening.1 :: (body.tokens ++ closing.1 :: rest) := by
      simp [tokens]
    rw [statement, result_traced, hsplit,
      result_bind_of_ok (result_accept?_of_not_starts (not_starts_of_kind opening.2 (by decide)))]
    dsimp only
    rw [result_bind_of_ok (result_accept?_of_not_starts (not_starts_of_kind opening.2 (by decide)))]
    dsimp only
    rw [result_bind_of_ok (result_accept?_cons opening.2)]
    dsimp only
    rw [blockStatement, result_traced, result_bind_of_ok hbody,
      result_bind_of_ok (result_expect_cons (List.mem_singleton.1 closing.2))]
    rfl

theorem reads {c : StmtCategory} (D : StmtTree c) : D.Reads := by
  induction D with
  | program body stop ih => trivial
  | nothing => exact reads_nothing
  | more first others ihf iho => exact reads_more ihf iho
  | ofVarDecl d ih => exact ih
  | ofStatement d ih => exact reads_ofStatement ih
  | var keyword name semicolon => exact reads_var keyword name semicolon
  | varInit keyword name equal initial semicolon =>
    exact reads_varInit keyword name equal initial semicolon
  | ofExprStmt d ih => exact ih
  | ofPrintStmt d ih => exact ih
  | ofIfStmt d ih => exact ih
  | ofBlock d ih => exact ih
  | exprStmt e semicolon => exact reads_exprStmt e semicolon
  | printStmt keyword e semicolon => exact reads_printStmt keyword e semicolon
  | ifThen keyword opening condition closing consequence ih => exact reads_ifThen ih
  | ifElse keyword opening condition closing consequence otherwise alternative iht ihe =>
    exact reads_ifElse iht ihe
  | block opening body closing ih => exact reads_block ih

end StmtTree

end LoxScript.Grammar
