import LoxScript.Proofs.Grammar.Correctness

/-!
# Fronts of phrases

A text that is the beginning of a phrase is never rejected for one of its own tokens: the parser
either finds a shorter phrase that takes the whole text, or it fails at the end of the text, where
the rest of the phrase would have come.

The induction is on the derivation tree of the whole phrase.  The front ends inside one of the parts
of the tree; the parts before that one are read back by completeness, and the claim for the part
itself is the hypothesis of the induction.
-/

namespace LoxScript.Grammar

open LoxScript.Parser

/-- The reading came to the end of the text: it took all tokens, or there were none left to go on
with. -/
def Spent {α : Type} (r : Except Failure (α × List Token)) : Prop :=
  (∃ a, r = .ok (a, [])) ∨ ∃ f, r = .error f ∧ f.blamed = []

section Sequence

variable {α β : Type} {p : Parser α} {f : α → Parser β} {ts : List Token}

lemma spent_ok (a : α) : Spent (.ok (a, [])) := .inl ⟨a, rfl⟩

/-- What comes next is asked to go on at the end of the text. -/
lemma Spent.bind (h : Spent (p ts).result) (hf : ∀ a, Spent (f a []).result) :
    Spent ((p >>= f) ts).result := by
  rcases h with ⟨a, ha⟩ | ⟨failure, hfailure, hblamed⟩
  · rw [result_bind_of_ok ha]
    exact hf a
  · rw [result_bind_of_error hfailure]
    exact .inr ⟨failure, rfl, hblamed⟩

/-- At the end of the text, no token is there that has to come. -/
lemma spent_expect_nil (kind : Kind) (what : Expected) (g : Token → Parser β) :
    Spent ((expect kind what >>= g) []).result :=
  .inr ⟨_, result_bind_of_error rfl, rfl⟩

lemma result_accept?_nil (kinds : List Kind) (g : Option Token → Parser β) :
    ((accept? kinds >>= g) []).result = (g none []).result :=
  result_bind_of_ok (result_accept?_of_not_starts not_starts_nil)

lemma Spent.recovering {p : Parser Stmt} (h : Spent (p ts).result) :
    Spent (recovering .failFast p ts).result := by
  rcases h with ⟨s, hs⟩ | ⟨failure, hfailure, hblamed⟩
  · exact .inl ⟨some s, result_recovering_failFast.2 ⟨s, rfl, hs⟩⟩
  · exact .inr ⟨failure, result_recovering_failFast_eq_error.2 hfailure, hblamed⟩

end Sequence

/-- If a list of tokens with one more is cut before its end, the front is one of the list. -/
lemma prefix_of_append_singleton_eq {t : Token} {ts w u : List Token} (h : ts ++ [t] = w ++ u)
    (hu : u ≠ []) : w <+: ts := by
  obtain ⟨u', last, rfl⟩ := (List.eq_nil_or_concat u).resolve_left hu
  rw [List.concat_eq_append, ← List.append_assoc] at h
  exact ⟨u', (List.append_inj' h rfl).1.symm⟩

/-! ### Expressions -/

lemma spent_primary_nil (p : Parser Expr) : Spent (primary p []).result := by
  rw [primary, result_traced, result_accept?_nil]
  dsimp only
  rw [result_accept?_nil]
  dsimp only
  rw [result_accept?_nil]
  exact .inr ⟨_, rfl, rfl⟩

lemma spent_unary_nil (fuel : Nat) : Spent (unary fuel []).result := by
  cases fuel with
  | zero => exact .inr ⟨_, rfl, rfl⟩
  | succ fuel =>
    rw [unary, result_traced, result_accept?_nil]
    exact spent_primary_nil _

/-- An operand that takes all tokens is the whole phrase. -/
lemma Spent.level {operand : Parser Expr} {ts : List Token} (h : Spent (operand ts).result)
    (rule : Rule) (operators : List Sign) (fuel : Nat) :
    Spent (level rule operators operand fuel ts).result := by
  rw [Grammar.level, result_traced]
  refine h.bind fun first => ?_
  rw [result_chain_of_not_starts not_starts_nil]
  exact spent_ok first

/-- So is an expression without an assignment sign after it. -/
lemma Spent.assignment {fuel : Nat} {ts : List Token}
    (h : Spent (equality (unary fuel) fuel ts).result) :
    Spent (assignment (fuel + 1) ts).result := by
  rw [Grammar.assignment, result_traced]
  refine h.bind fun target => ?_
  rw [result_bind_of_ok result_unread, result_accept?_nil]
  exact spent_ok target

lemma spent_assignment_nil (fuel : Nat) : Spent (assignment fuel []).result := by
  cases fuel with
  | zero => exact .inr ⟨_, rfl, rfl⟩
  | succ fuel =>
    have hfactor := (spent_unary_nil fuel).level .factor Level.factor.signs fuel
    have hterm := hfactor.level .term Level.term.signs fuel
    have hcomparison := hterm.level .comparison Level.comparison.signs fuel
    exact (hcomparison.level .equality Level.equality.signs fuel).assignment

/-- There is nothing to be read in an empty text. -/
lemma spent_parser_nil (c : ExprCategory) (fuel : Nat) : Spent (c.parser fuel []).result := by
  have hfactor := (spent_unary_nil fuel).level .factor Level.factor.signs fuel
  have hterm := hfactor.level .term Level.term.signs fuel
  have hcomparison := hterm.level .comparison Level.comparison.signs fuel
  cases c with
  | expression =>
    cases fuel with
    | zero => exact .inr ⟨_, rfl, rfl⟩
    | succ fuel => exact spent_assignment_nil fuel
  | assignment => exact spent_assignment_nil fuel
  | level l =>
    cases l with
    | equality => exact hcomparison.level .equality Level.equality.signs fuel
    | comparison => exact hcomparison
    | term => exact hterm
    | factor => exact hfactor
  | unary => exact spent_unary_nil fuel
  | primary => exact spent_primary_nil _

namespace ExprTree

/-- Every front of the tree's tokens is read to its end. -/
def Fronts {c : ExprCategory} (D : ExprTree c) : Prop :=
  ∀ ⦃w : List Token⦄, w <+: D.tokens → ∀ ⦃fuel : Nat⦄, 3 * w.length + c.slack ≤ fuel + 1 →
    Spent (c.parser fuel w).result

/-- The tokens of the whole tree are read by completeness, so only the other fronts are left. -/
lemma fronts_of_proper {c : ExprCategory} {D : ExprTree c}
    (h : ∀ ⦃w u : List Token⦄, D.tokens = w ++ u → u ≠ [] → w ≠ [] → ∀ ⦃fuel : Nat⦄,
      3 * w.length + c.slack ≤ fuel + 1 → Spent (c.parser fuel w).result) : D.Fronts := by
  rintro w ⟨u, hu⟩ fuel hfuel
  by_cases hw : w = []
  · subst hw
    exact spent_parser_nil c fuel
  by_cases hwhole : u = []
  · rw [hwhole, List.append_nil] at hu
    rw [hu] at hfuel ⊢
    have hread := D.completes.reads hfuel not_starts_nil
    rw [List.append_nil] at hread
    exact .inl ⟨_, hread⟩
  · exact h hu.symm hwhole hw hfuel

/-! One lemma for each production. -/

lemma fronts_expression {e : ExprTree .assignment} (h : e.Fronts) : (expression e).Fronts := by
  intro w hw fuel hfuel
  simp only [ExprCategory.slack] at hfuel
  cases fuel with
  | zero => omega
  | succ fuel =>
    rw [ExprCategory.parser, Grammar.expression, result_traced]
    have hfuel' : 3 * w.length + ExprCategory.assignment.slack ≤ fuel + 1 := by
      simp only [ExprCategory.slack]
      omega
    exact h hw hfuel'

lemma fronts_ofEquality {e : ExprTree (.level .equality)} (h : e.Fronts) :
    (ofEquality e).Fronts := by
  intro w hw fuel hfuel
  simp only [ExprCategory.slack] at hfuel
  cases fuel with
  | zero => omega
  | succ fuel =>
    have hfuel' : 3 * w.length + (ExprCategory.level .equality).slack ≤ fuel + 1 := by
      simp only [ExprCategory.slack]
      omega
    have hequality : Spent (equality (Grammar.unary fuel) fuel w).result := h hw hfuel'
    exact hequality.assignment

lemma fronts_assign {target : Word [.identifier]} {equal : Word [.sign .equal]}
    {value : ExprTree .assignment} (h : value.Fronts) : (assign target equal value).Fronts := by
  refine fronts_of_proper fun w u hsplit hu hw fuel hfuel => ?_
  simp only [ExprCategory.slack] at hfuel
  obtain ⟨t, w, rfl⟩ := List.exists_cons_of_ne_nil hw
  obtain ⟨rfl, htail⟩ := List.cons.inj hsplit
  have hname : ¬ Starts (ExprCategory.level .equality).continuations w := by
    cases w with
    | nil => exact not_starts_nil
    | cons t w =>
      obtain ⟨rfl, -⟩ := List.cons.inj htail
      exact StmtTree.not_starts_of_kind equal.2 (by decide)
  cases fuel with
  | zero =>
    rw [List.length_cons] at hfuel
    omega
  | succ fuel =>
    have hfuelName : 3 * (ofName target).tokens.length + 1 ≤ fuel + 1 := by
      have hone : (ofName target).tokens.length = 1 := rfl
      rw [List.length_cons] at hfuel
      omega
    have hread : (equality (Grammar.unary fuel) fuel (target.1 :: w)).result =
        .ok (.name target.1, w) := (completes_ofName target).reads hfuelName hname
    rw [ExprCategory.parser, Grammar.assignment, result_traced, result_bind_of_ok hread,
      result_bind_of_ok result_unread]
    cases w with
    | nil =>
      rw [result_accept?_nil]
      exact spent_ok _
    | cons t w =>
      obtain ⟨rfl, hvalue⟩ := List.cons.inj htail
      rw [result_bind_of_ok (result_accept?_cons equal.2)]
      have hfuelValue : 3 * w.length + ExprCategory.assignment.slack ≤ fuel + 1 := by
        simp only [List.length_cons, ExprCategory.slack] at hfuel ⊢
        omega
      have hspent : Spent (Grammar.assignment fuel w).result := h ⟨u, hvalue.symm⟩ hfuelValue
      exact hspent.bind fun v => spent_ok _

lemma fronts_ofOperand {l : Level} {e : ExprTree l.operand} (h : e.Fronts) :
    (ofOperand e).Fronts := by
  intro w hw fuel hfuel
  rw [parser_level]
  have hoperand : Spent (l.operand.parser fuel w).result := h hw (by rwa [slack_operand])
  exact hoperand.level _ _ _

lemma fronts_binary {l : Level} {left : ExprTree (.level l)} {operator : Word l.operators}
    {right : ExprTree l.operand} (hleft : left.Fronts) (hright : right.Fronts) :
    (binary left operator right).Fronts := by
  refine fronts_of_proper fun w u hsplit hu hw fuel hfuel => ?_
  simp only [ExprCategory.slack] at hfuel
  rcases List.append_eq_append_iff.1 hsplit with ⟨w', rfl, hrest⟩ | ⟨u', hfront, -⟩
  · -- The front goes on after the left operand, so the operator is the first to be read from there.
    cases w' with
    | nil =>
      rw [List.append_nil] at hfuel ⊢
      exact hleft (List.prefix_refl _) hfuel
    | cons t w' =>
      obtain ⟨rfl, htail⟩ := List.cons.inj hrest
      simp only [List.length_append, List.length_cons] at hfuel
      have hspine := left.spine_lt_length
      have hfuelLeft : 3 * left.tokens.length + 1 ≤ fuel + 1 := by omega
      have hfuelRight : 3 * w'.length + l.operand.slack ≤ fuel + 1 := by
        rw [slack_operand]
        omega
      have hoperator : ¬ Starts l.operand.continuations (operator.1 :: w') := by
        rw [starts_cons]
        exact not_mem_continuations_operand operator.2
      obtain ⟨k, hk⟩ : ∃ k, fuel = left.spine + (k + 1) := ⟨fuel - left.spine - 1, by omega⟩
      have hfeeds : left.Feeds := left.completes
      have hfeed := hfeeds hfuelLeft hoperator (k + 1)
      rw [← hk] at hfeed
      have hlevel : ((ExprCategory.level l).parser fuel (left.tokens ++ operator.1 :: w')).result =
          (chain l.operators (l.operand.parser fuel) (k + 1) left.value
            (operator.1 :: w')).result := by
        rw [parser_level]
        exact hfeed
      rw [hlevel, chain, result_bind_of_ok (result_accept?_cons operator.2)]
      refine (hright ⟨u, htail.symm⟩ hfuelRight).bind fun r => ?_
      rw [result_chain_of_not_starts not_starts_nil]
      exact spent_ok _
  · exact hleft ⟨u', hfront.symm⟩ hfuel

lemma fronts_unary {operator : Word unaryOperators} {right : ExprTree .unary} (h : right.Fronts) :
    (unary operator right).Fronts := by
  refine fronts_of_proper fun w u hsplit hu hw fuel hfuel => ?_
  obtain ⟨t, w, rfl⟩ := List.exists_cons_of_ne_nil hw
  obtain ⟨rfl, hright⟩ := List.cons.inj hsplit
  simp only [ExprCategory.slack, List.length_cons] at hfuel
  cases fuel with
  | zero => omega
  | succ fuel =>
    have hfuel' : 3 * w.length + ExprCategory.unary.slack ≤ fuel + 1 := by
      simp only [ExprCategory.slack]
      omega
    have hspent : Spent (Grammar.unary fuel w).result := h ⟨u, hright.symm⟩ hfuel'
    rw [ExprCategory.parser, Grammar.unary, result_traced,
      result_bind_of_ok (result_accept?_cons operator.2)]
    exact hspent.bind fun r => spent_ok _

lemma fronts_ofPrimary {e : ExprTree .primary} (h : e.Fronts) : (ofPrimary e).Fronts := by
  refine fronts_of_proper fun w u hsplit hu hw fuel hfuel => ?_
  have htokens : e.tokens = w ++ u := hsplit
  have hoperator : ¬ Starts unaryOperators w := by
    have hstart := not_starts_unaryOperators e
    rwa [htokens, starts_append_of_ne_nil hw] at hstart
  have hpos := List.length_pos_iff.2 hw
  simp only [ExprCategory.slack] at hfuel
  cases fuel with
  | zero => omega
  | succ fuel =>
    have hfuel' : 3 * w.length + ExprCategory.primary.slack ≤ fuel + 1 := by
      simp only [ExprCategory.slack]
      omega
    rw [ExprCategory.parser, Grammar.unary, result_traced,
      result_bind_of_ok (result_accept?_of_not_starts hoperator)]
    exact h ⟨u, htokens.symm⟩ hfuel'

/-- A single token has no front but the empty one. -/
lemma fronts_of_single {c : ExprCategory} {D : ExprTree c} {t : Token} (h : D.tokens = [t]) :
    D.Fronts := by
  refine fronts_of_proper fun w u hsplit hu hw fuel hfuel => ?_
  rw [h] at hsplit
  have hlength := congrArg List.length hsplit
  have hw' := List.length_pos_iff.2 hw
  have hu' := List.length_pos_iff.2 hu
  rw [List.length_append, List.length_singleton] at hlength
  omega

lemma fronts_grouping {opening : Word [.sign .leftParen]} {inner : ExprTree .expression}
    {closing : Word [.sign .rightParen]} (h : inner.Fronts) :
    (grouping opening inner closing).Fronts := by
  refine fronts_of_proper fun w u hsplit hu hw fuel hfuel => ?_
  obtain ⟨t, w, rfl⟩ := List.exists_cons_of_ne_nil hw
  obtain ⟨rfl, hinner⟩ := List.cons.inj hsplit
  have hfuel' : 3 * w.length + ExprCategory.expression.slack ≤ fuel + 1 := by
    simp only [ExprCategory.slack, List.length_cons] at hfuel ⊢
    omega
  have hspent : Spent (Grammar.expression fuel w).result :=
    h (prefix_of_append_singleton_eq hinner hu) hfuel'
  have hliteral : ¬ Starts literalKinds (opening.1 :: w) :=
    StmtTree.not_starts_of_kind opening.2 (by decide)
  have hname : ¬ Starts [.identifier] (opening.1 :: w) :=
    StmtTree.not_starts_of_kind opening.2 (by decide)
  rw [ExprCategory.parser, primary, result_traced,
    result_bind_of_ok (result_accept?_of_not_starts hliteral),
    result_bind_of_ok (result_accept?_of_not_starts hname),
    result_bind_of_ok (result_accept?_cons opening.2)]
  exact hspent.bind fun e => spent_expect_nil _ _ _

theorem fronts {c : ExprCategory} (D : ExprTree c) : D.Fronts := by
  induction D with
  | expression e ih => exact fronts_expression ih
  | assign target equal value ih => exact fronts_assign ih
  | ofEquality e ih => exact fronts_ofEquality ih
  | ofOperand e ih => exact fronts_ofOperand ih
  | binary left operator right ihl ihr => exact fronts_binary ihl ihr
  | unary operator right ih => exact fronts_unary ih
  | ofPrimary e ih => exact fronts_ofPrimary ih
  | literal token => exact fronts_of_single rfl
  | name token => exact fronts_of_single rfl
  | grouping opening inner closing ih => exact fronts_grouping ih

end ExprTree

/-- An expression is read to the end of every front of it. -/
lemma spent_expression {e : ExprTree .expression} {w : List Token} (hw : w <+: e.tokens)
    {fuel : Nat} (hfuel : 3 * w.length + 2 ≤ fuel) : Spent (expression fuel w).result := by
  have hfuel' : 3 * w.length + ExprCategory.expression.slack ≤ fuel + 1 := Nat.succ_le_succ hfuel
  exact e.fronts hw hfuel'

/-! ### Statements -/

lemma spent_expressionStatement {fuel : Nat} {w : List Token}
    (h : Spent (expression fuel w).result) : Spent (expressionStatement fuel w).result := by
  rw [expressionStatement, result_traced, result_bind_of_ok result_unread]
  exact h.bind fun e => spent_expect_nil _ _ _

lemma spent_statement_nil (fuel : Nat) : Spent (statement .failFast fuel []).result := by
  cases fuel with
  | zero => exact .inr ⟨_, rfl, rfl⟩
  | succ fuel =>
    rw [statement, result_traced, result_accept?_nil]
    dsimp only
    rw [result_accept?_nil]
    dsimp only
    rw [result_accept?_nil]
    exact spent_expressionStatement (spent_parser_nil .expression fuel)

lemma spent_declaration_nil (fuel : Nat) : Spent (declaration .failFast fuel []).result := by
  cases fuel with
  | zero => exact .inr ⟨_, rfl, rfl⟩
  | succ fuel =>
    rw [declaration, result_traced]
    apply Spent.recovering
    rw [result_accept?_nil]
    exact spent_statement_nil fuel

lemma spent_declarations_nil (closing : List Kind) (fuel : Nat) :
    Spent (declarations .failFast closing fuel []).result := by
  cases fuel with
  | zero => exact spent_ok _
  | succ fuel => exact spent_ok _

/-- The parser reads every front of the tokens to its end. -/
def FrontsRead {α : Type} (p : Nat → Parser α) (slack : Nat) (tokens : List Token) : Prop :=
  ∀ ⦃w : List Token⦄, w <+: tokens → ∀ ⦃fuel : Nat⦄, 3 * w.length + slack ≤ fuel →
    Spent (p fuel w).result

/-- When the empty text and the whole one are read, only the other fronts are left. -/
lemma frontsRead_of_proper {α : Type} {p : Nat → Parser α} {slack : Nat} {tokens : List Token}
    (hnil : ∀ fuel, Spent (p fuel []).result)
    (hwhole : ∀ fuel, 3 * tokens.length + slack ≤ fuel → Spent (p fuel tokens).result)
    (h : ∀ ⦃w u : List Token⦄, tokens = w ++ u → u ≠ [] → w ≠ [] → ∀ ⦃fuel : Nat⦄,
      3 * w.length + slack ≤ fuel → Spent (p fuel w).result) : FrontsRead p slack tokens := by
  rintro w ⟨u, rfl⟩ fuel hfuel
  by_cases hw : w = []
  · subst hw
    exact hnil fuel
  by_cases hu : u = []
  · subst hu
    rw [List.append_nil] at hwhole
    exact hwhole fuel hfuel
  · exact h rfl hu hw hfuel

namespace StmtTree

/-- Every front of the tree's tokens is read to its end, if the tree is settled before some text. -/
def Fronts : {c : StmtCategory} → StmtTree c → Prop
  | .program, _ => True
  | .declarations, D => ∀ ⦃after : List Token⦄, D.Settled after →
      ∀ ⦃closing : List Kind⦄, closing ⊆ [.sign .rightBrace] →
        FrontsRead (declarations .failFast closing) 6 D.tokens
  | .declaration, D | .varDecl, D => ∀ ⦃after : List Token⦄, D.Settled after →
      FrontsRead (declaration .failFast) 5 D.tokens
  | .statement, D | .exprStmt, D | .printStmt, D | .ifStmt, D | .block, D =>
      ∀ ⦃after : List Token⦄, D.Settled after → FrontsRead (statement .failFast) 4 D.tokens

lemma Settled.nil {c : StmtCategory} {D : StmtTree c} {after : List Token} (h : D.Settled after) :
    D.Settled [] :=
  h.replace fun hstart => absurd hstart not_starts_nil

/-- Only the fronts of a statement that are neither empty nor the whole are left. -/
lemma frontsRead_statement {D : StmtTree .statement} (hsettled : D.Settled [])
    (h : ∀ ⦃w u : List Token⦄, D.tokens = w ++ u → u ≠ [] → w ≠ [] → ∀ ⦃fuel : Nat⦄,
      3 * w.length + 3 ≤ fuel → Spent (statement .failFast (fuel + 1) w).result) :
    FrontsRead (statement .failFast) 4 D.tokens := by
  refine frontsRead_of_proper spent_statement_nil (fun fuel hfuel => ?_)
    fun w u hsplit hu hw fuel hfuel => ?_
  · have hread := D.reads (by omega : 3 * D.tokens.length ≤ fuel) hsettled
    rw [List.append_nil] at hread
    exact .inl ⟨_, hread⟩
  · cases fuel with
    | zero => omega
    | succ fuel => exact h hsplit hu hw (by omega)

/-- The same for declarations. -/
lemma frontsRead_declaration {D : StmtTree .declaration} (hsettled : D.Settled [])
    (h : ∀ ⦃w u : List Token⦄, D.tokens = w ++ u → u ≠ [] → w ≠ [] → ∀ ⦃fuel : Nat⦄,
      3 * w.length + 4 ≤ fuel → Spent (declaration .failFast (fuel + 1) w).result) :
    FrontsRead (declaration .failFast) 5 D.tokens := by
  refine frontsRead_of_proper spent_declaration_nil (fun fuel hfuel => ?_)
    fun w u hsplit hu hw fuel hfuel => ?_
  · have hread := D.reads (by omega : 3 * D.tokens.length + 1 ≤ fuel) hsettled
    rw [List.append_nil] at hread
    exact .inl ⟨_, hread⟩
  · cases fuel with
    | zero => omega
    | succ fuel => exact h hsplit hu hw (by omega)

lemma fronts_exprStmt (e : ExprTree .expression) (semicolon : Word [.sign .semicolon]) :
    (exprStmt e semicolon).Fronts := by
  intro after hsettled
  refine frontsRead_statement (D := ofExprStmt (exprStmt e semicolon)) hsettled.nil
    fun w u hsplit hu hw fuel hfuel => ?_
  have hfront := prefix_of_append_singleton_eq hsplit hu
  have hstarts : Starts expressionStarts w := by
    obtain ⟨u', hu'⟩ := hfront
    have hstart := e.starts
    rwa [← hu', starts_append_of_ne_nil hw] at hstart
  rw [statement, result_traced,
    result_bind_of_ok (result_accept?_of_not_starts (hstarts.not_of_disjoint (by decide)))]
  dsimp only
  rw [result_bind_of_ok (result_accept?_of_not_starts (hstarts.not_of_disjoint (by decide)))]
  dsimp only
  rw [result_bind_of_ok (result_accept?_of_not_starts (hstarts.not_of_disjoint (by decide)))]
  exact spent_expressionStatement (spent_expression hfront (by omega))

lemma fronts_printStmt (keyword : Word [.keyword .printWord]) (e : ExprTree .expression)
    (semicolon : Word [.sign .semicolon]) : (printStmt keyword e semicolon).Fronts := by
  intro after hsettled
  refine frontsRead_statement (D := ofPrintStmt (printStmt keyword e semicolon)) hsettled.nil
    fun w u hsplit hu hw fuel hfuel => ?_
  obtain ⟨t, w, rfl⟩ := List.exists_cons_of_ne_nil hw
  obtain ⟨rfl, htail⟩ := List.cons.inj hsplit
  rw [List.length_cons] at hfuel
  have hspent : Spent (expression fuel w).result :=
    spent_expression (prefix_of_append_singleton_eq htail hu) (by omega)
  rw [statement, result_traced,
    result_bind_of_ok (result_accept?_of_not_starts (not_starts_of_kind keyword.2 (by decide)))]
  dsimp only
  rw [result_bind_of_ok (result_accept?_cons keyword.2)]
  dsimp only
  rw [printStatement, result_traced]
  exact hspent.bind fun v => spent_expect_nil _ _ _

/-- A front of the condition is read to its end. -/
lemma spent_ifStatement_condition {p : Parser Stmt} {fuel : Nat} {keyword : Token}
    {opening : Word [.sign .leftParen]} {condition : ExprTree .expression} {v : List Token}
    (hv : v <+: condition.tokens) (hfuel : 3 * v.length + 2 ≤ fuel) :
    Spent (ifStatement p fuel keyword (opening.1 :: v)).result := by
  rw [ifStatement, result_traced,
    result_bind_of_ok (result_expect_cons (List.mem_singleton.1 opening.2))]
  exact (spent_expression hv hfuel).bind fun e => spent_expect_nil _ _ _

/-- A front of a conditional statement ends before the consequence, or goes on with a front of what
comes after the condition. -/
lemma if_front_cases {keyword : Word [.keyword .ifWord]} {opening : Word [.sign .leftParen]}
    {condition : ExprTree .expression} {closing : Word [.sign .rightParen]}
    {tail w u : List Token} (hw : w ≠ [])
    (h : keyword.1 :: opening.1 :: (condition.tokens ++ closing.1 :: tail) = w ++ u)
    (p : Parser Stmt) {fuel : Nat} (hfuel : 3 * w.length ≤ fuel) :
    ∃ v, w = keyword.1 :: v ∧
      (Spent (ifStatement p fuel keyword.1 v).result ∨
        ∃ mid, v = opening.1 :: (condition.tokens ++ closing.1 :: mid) ∧ tail = mid ++ u) := by
  obtain ⟨t, v, rfl⟩ := List.exists_cons_of_ne_nil hw
  obtain ⟨rfl, htail⟩ := List.cons.inj h
  refine ⟨v, rfl, ?_⟩
  rw [List.length_cons] at hfuel
  cases v with
  | nil =>
    rw [ifStatement, result_traced]
    exact .inl (spent_expect_nil _ _ _)
  | cons t v =>
    obtain ⟨rfl, hrest⟩ := List.cons.inj htail
    rw [List.length_cons] at hfuel
    rcases List.append_eq_append_iff.1 hrest with ⟨w', rfl, hclosing⟩ | ⟨u', hfront, -⟩
    · cases w' with
      | nil =>
        rw [List.append_nil] at hfuel ⊢
        exact .inl (spent_ifStatement_condition (List.prefix_refl _) (by omega))
      | cons t mid =>
        obtain ⟨rfl, hmid⟩ := List.cons.inj hclosing
        exact .inr ⟨mid, rfl, hmid⟩
    · exact .inl (spent_ifStatement_condition ⟨u', hfront.symm⟩ (by omega))

/-- At the end of the text, the consequence is taken to have no alternative. -/
lemma spent_afterConsequence_nil (p : Parser Stmt) (keyword : Token) (condition : Expr)
    (consequence : Stmt) : Spent (afterConsequence p keyword condition consequence []).result := by
  rw [result_afterConsequence_of_not_starts not_starts_nil]
  exact spent_ok _

lemma fronts_ifThen {keyword : Word [.keyword .ifWord]} {opening : Word [.sign .leftParen]}
    {condition : ExprTree .expression} {closing : Word [.sign .rightParen]}
    {consequence : StmtTree .statement} (h : consequence.Fronts) :
    (ifThen keyword opening condition closing consequence).Fronts := by
  intro after hsettled
  refine frontsRead_statement
    (D := ofIfStmt (ifThen keyword opening condition closing consequence)) hsettled.nil
    fun w u hsplit hu hw fuel hfuel => ?_
  obtain ⟨v, rfl, hspent | ⟨mid, rfl, hmid⟩⟩ :=
    if_front_cases hw hsplit (statement .failFast fuel) (by omega : 3 * w.length ≤ fuel)
  · rw [result_statement_ifStatement]
    exact hspent
  · simp only [List.length_cons, List.length_append] at hfuel
    rw [result_statement_ifStatement, result_ifStatement_condition (by omega)]
    have hconsequence : Spent (statement .failFast fuel mid).result :=
      h hsettled.2 ⟨u, hmid.symm⟩ (by omega)
    exact hconsequence.bind fun s => spent_afterConsequence_nil _ _ _ s

lemma fronts_ifElse {keyword : Word [.keyword .ifWord]} {opening : Word [.sign .leftParen]}
    {condition : ExprTree .expression} {closing : Word [.sign .rightParen]}
    {consequence : StmtTree .statement} {otherwise : Word [.keyword .elseWord]}
    {alternative : StmtTree .statement} (hthen : consequence.Fronts) (helse : alternative.Fronts) :
    (ifElse keyword opening condition closing consequence otherwise alternative).Fronts := by
  intro after hsettled
  refine frontsRead_statement
    (D := ofIfStmt (ifElse keyword opening condition closing consequence otherwise alternative))
    hsettled.nil fun w u hsplit hu hw fuel hfuel => ?_
  obtain ⟨v, rfl, hspent | ⟨mid, rfl, hmid⟩⟩ :=
    if_front_cases hw hsplit (statement .failFast fuel) (by omega : 3 * w.length ≤ fuel)
  · rw [result_statement_ifStatement]
    exact hspent
  simp only [List.length_cons, List.length_append] at hfuel
  rw [result_statement_ifStatement, result_ifStatement_condition (by omega)]
  obtain ⟨hsettledThen, hsettledElse⟩ := hsettled
  have hwithin : mid <+: consequence.tokens → Spent (statement .failFast fuel mid).result :=
    fun hfront => hthen hsettledThen hfront (by omega)
  rcases List.append_eq_append_iff.1 hmid with ⟨w', rfl, hrest⟩ | ⟨u', hfront, -⟩
  · cases w' with
    | nil =>
      rw [List.append_nil] at hwithin ⊢
      exact (hwithin (List.prefix_refl _)).bind fun s => spent_afterConsequence_nil _ _ _ s
    | cons t w' =>
      obtain ⟨rfl, halternative⟩ := List.cons.inj hrest
      simp only [List.length_append, List.length_cons] at hfuel
      have hsettledFront : consequence.Settled (otherwise.1 :: w') :=
        hsettledThen.replace fun _ => starts_cons.2 otherwise.2
      have hread := consequence.reads (by omega : 3 * consequence.tokens.length ≤ fuel)
        hsettledFront
      have hspent : Spent (statement .failFast fuel w').result :=
        helse hsettledElse ⟨u, halternative.symm⟩ (by omega)
      rw [result_bind_of_ok hread, afterConsequence,
        result_bind_of_ok (result_accept?_cons otherwise.2)]
      exact hspent.bind fun s => spent_ok _
  · exact (hwithin ⟨u', hfront.symm⟩).bind fun s => spent_afterConsequence_nil _ _ _ s

lemma fronts_block {opening : Word [.sign .leftBrace]} {body : StmtTree .declarations}
    {closing : Word [.sign .rightBrace]} (h : body.Fronts) :
    (block opening body closing).Fronts := by
  intro after hsettled
  refine frontsRead_statement (D := ofBlock (block opening body closing)) hsettled.nil
    fun w u hsplit hu hw fuel hfuel => ?_
  obtain ⟨t, w, rfl⟩ := List.exists_cons_of_ne_nil hw
  obtain ⟨rfl, htail⟩ := List.cons.inj hsplit
  rw [List.length_cons] at hfuel
  have hspent : Spent (declarations .failFast [.sign .rightBrace] fuel w).result :=
    h hsettled (List.Subset.refl _) (prefix_of_append_singleton_eq htail hu) (by omega)
  rw [statement, result_traced,
    result_bind_of_ok (result_accept?_of_not_starts (not_starts_of_kind opening.2 (by decide)))]
  dsimp only
  rw [result_bind_of_ok (result_accept?_of_not_starts (not_starts_of_kind opening.2 (by decide)))]
  dsimp only
  rw [result_bind_of_ok (result_accept?_cons opening.2)]
  dsimp only
  rw [blockStatement, result_traced]
  exact hspent.bind fun b => spent_expect_nil _ _ _

lemma fronts_ofStatement {d : StmtTree .statement} (h : d.Fronts) : (ofStatement d).Fronts := by
  intro after hsettled
  refine frontsRead_declaration (D := ofStatement d) hsettled.nil
    fun w u hsplit hu hw fuel hfuel => ?_
  have htokens : d.tokens = w ++ u := hsplit
  have hstarts : Starts statementStarts w := by
    have hstart := d.starts rfl
    rwa [htokens, starts_append_of_ne_nil hw] at hstart
  rw [declaration, result_traced]
  apply Spent.recovering
  rw [result_bind_of_ok (result_accept?_of_not_starts (hstarts.not_of_disjoint (by decide)))]
  exact h hsettled ⟨u, htokens.symm⟩ hfuel

lemma result_declaration_varDeclaration {keyword : Word [.keyword .varWord]} {fuel : Nat}
    {ts : List Token} (h : Spent (varDeclaration fuel keyword.1 ts).result) :
    Spent (declaration .failFast (fuel + 1) (keyword.1 :: ts)).result := by
  rw [declaration, result_traced]
  apply Spent.recovering
  rw [result_bind_of_ok (result_accept?_cons keyword.2)]
  exact h

lemma fronts_var (keyword : Word [.keyword .varWord]) (name : Word [.identifier])
    (semicolon : Word [.sign .semicolon]) : (var keyword name semicolon).Fronts := by
  intro after hsettled
  refine frontsRead_declaration (D := ofVarDecl (var keyword name semicolon)) hsettled.nil
    fun w u hsplit hu hw fuel hfuel => ?_
  obtain ⟨t, w, rfl⟩ := List.exists_cons_of_ne_nil hw
  obtain ⟨rfl, htail⟩ := List.cons.inj hsplit
  apply result_declaration_varDeclaration
  rw [varDeclaration, result_traced]
  have hwords : [name.1] ++ [semicolon.1] = w ++ u := htail
  have hfront : w <+: [name.1] := prefix_of_append_singleton_eq hwords hu
  rcases List.prefix_cons_iff.1 hfront with rfl | ⟨v, rfl, hv⟩
  · exact spent_expect_nil _ _ _
  · obtain rfl := List.prefix_nil.1 hv
    rw [result_bind_of_ok (result_expect_cons (List.mem_singleton.1 name.2)), result_accept?_nil]
    exact spent_expect_nil _ _ _

lemma fronts_varInit (keyword : Word [.keyword .varWord]) (name : Word [.identifier])
    (equal : Word [.sign .equal]) (initial : ExprTree .expression)
    (semicolon : Word [.sign .semicolon]) :
    (varInit keyword name equal initial semicolon).Fronts := by
  intro after hsettled
  refine frontsRead_declaration
    (D := ofVarDecl (varInit keyword name equal initial semicolon)) hsettled.nil
    fun w u hsplit hu hw fuel hfuel => ?_
  obtain ⟨t, w, rfl⟩ := List.exists_cons_of_ne_nil hw
  obtain ⟨rfl, htail⟩ := List.cons.inj hsplit
  rw [List.length_cons] at hfuel
  apply result_declaration_varDeclaration
  rw [varDeclaration, result_traced]
  have hwords : (name.1 :: equal.1 :: initial.tokens) ++ [semicolon.1] = w ++ u := htail
  have hfront : w <+: name.1 :: equal.1 :: initial.tokens :=
    prefix_of_append_singleton_eq hwords hu
  rcases List.prefix_cons_iff.1 hfront with rfl | ⟨v, rfl, hv⟩
  · exact spent_expect_nil _ _ _
  rw [result_bind_of_ok (result_expect_cons (List.mem_singleton.1 name.2))]
  rcases List.prefix_cons_iff.1 hv with rfl | ⟨v', rfl, hv'⟩
  · rw [result_accept?_nil]
    exact spent_expect_nil _ _ _
  · rw [result_bind_of_ok (result_accept?_cons equal.2)]
    simp only [List.length_cons] at hfuel
    exact (spent_expression hv' (by omega)).bind fun e => spent_expect_nil _ _ _

lemma fronts_nothing : nothing.Fronts := by
  intro after _ closing _ w hw fuel _
  obtain rfl := List.prefix_nil.1 hw
  exact spent_declarations_nil closing fuel

lemma fronts_more {first : StmtTree .declaration} {others : StmtTree .declarations}
    (hfirst : first.Fronts) (hothers : others.Fronts) : (more first others).Fronts := by
  intro after hsettled closing hclosing w hw fuel hfuel
  obtain ⟨hsettledFirst, hsettledOthers⟩ := hsettled
  cases w with
  | nil => exact spent_declarations_nil closing fuel
  | cons next w =>
    obtain ⟨u, hsplit⟩ := hw
    have htokens : first.tokens ++ others.tokens = next :: w ++ u := hsplit.symm
    have hstarts : next.kind ∈ StmtCategory.declaration.starts := by
      have hstart := (first.starts rfl).append others.tokens
      rwa [htokens, List.cons_append, starts_cons] at hstart
    have hnext : next.kind ∉ closing := by
      intro hmem
      rw [List.mem_singleton.1 (hclosing hmem)] at hstarts
      revert hstarts
      decide
    cases fuel with
    | zero => omega
    | succ fuel =>
      rw [declarations, result_bind_of_ok result_unread]
      simp only [hnext, if_false]
      rcases List.append_eq_append_iff.1 htokens with ⟨w', hw', hrest⟩ | ⟨u', hfront, -⟩
      · have hpos := List.length_pos_iff.2 (first.tokens_ne_nil rfl)
        rw [hw', List.length_append] at hfuel
        have hsettledFront : first.Settled w' := by
          rw [hrest, List.append_assoc] at hsettledFirst
          exact hsettledFirst.replace fun hstart => hstart.append _
        have hread := first.reads (by omega : 3 * first.tokens.length + 1 ≤ fuel) hsettledFront
        have hspent : Spent (declarations .failFast closing fuel w').result :=
          hothers hsettledOthers hclosing ⟨u, hrest.symm⟩ (by omega)
        rw [hw', result_bind_of_ok hread]
        exact hspent.bind fun rest => spent_ok _
      · have hspent : Spent (declaration .failFast fuel (next :: w)).result :=
          hfirst hsettledFirst ⟨u', hfront.symm⟩ (by omega)
        exact hspent.bind fun s =>
          (spent_declarations_nil closing fuel).bind fun rest => spent_ok _

theorem fronts {c : StmtCategory} (D : StmtTree c) : D.Fronts := by
  induction D with
  | program body stop ih => trivial
  | nothing => exact fronts_nothing
  | more first others ihf iho => exact fronts_more ihf iho
  | ofVarDecl d ih => exact ih
  | ofStatement d ih => exact fronts_ofStatement ih
  | var keyword name semicolon => exact fronts_var keyword name semicolon
  | varInit keyword name equal initial semicolon =>
    exact fronts_varInit keyword name equal initial semicolon
  | ofExprStmt d ih => exact ih
  | ofPrintStmt d ih => exact ih
  | ofIfStmt d ih => exact ih
  | ofBlock d ih => exact ih
  | exprStmt e semicolon => exact fronts_exprStmt e semicolon
  | printStmt keyword e semicolon => exact fronts_printStmt keyword e semicolon
  | ifThen keyword opening condition closing consequence ih => exact fronts_ifThen ih
  | ifElse keyword opening condition closing consequence otherwise alternative iht ihe =>
    exact fronts_ifElse iht ihe
  | block opening body closing ih => exact fronts_block ih

end StmtTree

/-- Every front of a program is read to its end. -/
lemma spent_program {B : StmtTree .declarations} {after w : List Token} (h : B.Settled after)
    (hw : w <+: B.tokens) : Spent (program .failFast w).result := by
  have hfuel : 3 * w.length + 6 ≤ fuelFor w.length := by
    unfold fuelFor
    omega
  exact B.fronts h (List.nil_subset _) hw hfuel

end LoxScript.Grammar
