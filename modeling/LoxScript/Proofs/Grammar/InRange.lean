import LoxScript.Proofs.Grammar.Correctness
import LoxScript.Proofs.Grammar.Following

/-!
# Reading with an index stays in range and comes to an end

The machine follows the parsers through all rules of the grammar, on texts whose number of tokens
the bound allows for.  Parsers have no faults, and so the machine has none.
-/

namespace LoxScript.Cursor

open LoxScript.Grammar

/-! ### Expressions -/

section Expressions

variable {d : Prepared} {n fuel : Nat}

lemma follows_chain {operators : List Kind} (hoperators : Kind.endOfInput ∉ operators)
    {operand : Walk Expr} {operand' : Parser Expr} (h : Follows d n operand operand')
    (hnarrows : Narrows operand') (hfuel : n < fuel) (left : Expr) :
    Follows d n (chain operators operand fuel left)
      (Grammar.chain operators operand' fuel left) := by
  induction fuel generalizing n left with
  | zero => omega
  | succ fuel ih =>
    refine follows_accept?_bind hoperators (follows_pure left) fun operator l hl => ?_
    have hshorter := h.mono (Nat.le_of_lt hl)
    exact hshorter.bind hnarrows fun right => ih hshorter (by omega) _

lemma follows_level {operand : Walk Expr} {operand' : Parser Expr} (rule : Rule)
    (operators : List Sign) (h : Follows d n operand operand') (hnarrows : Narrows operand')
    (hfuel : n < fuel) :
    Follows d n (level rule operators operand fuel)
      (Grammar.level rule operators operand' fuel) := by
  have hoperators : Kind.endOfInput ∉ operators.map Kind.sign := by simp
  exact (h.bind hnarrows fun first => follows_chain hoperators h hnarrows hfuel first).traced rule

lemma follows_equality {unary : Walk Expr} {unary' : Parser Expr} (h : Follows d n unary unary')
    (hnarrows : Narrows unary') (hfuel : n < fuel) :
    Follows d n (equality unary fuel) (Grammar.equality unary' fuel) := by
  have hnfactor := compositional_narrows.level hnarrows .factor [.slash, .star] (by decide) fuel
  have hnterm := compositional_narrows.level hnfactor .term [.minus, .plus] (by decide) fuel
  have hncomparison := compositional_narrows.level hnterm .comparison
    [.greater, .greaterEqual, .less, .lessEqual] (by decide) fuel
  have hfactor := follows_level .factor [.slash, .star] h hnarrows hfuel
  have hterm := follows_level .term [.minus, .plus] hfactor hnfactor hfuel
  have hcomparison := follows_level .comparison [.greater, .greaterEqual, .less, .lessEqual] hterm
    hnterm hfuel
  exact follows_level .equality [.bangEqual, .equalEqual] hcomparison hncomparison hfuel

lemma follows_primary {m : Walk Expr} {p : Parser Expr} (hnarrows : Narrows p)
    (h : ∀ l, l < n → Follows d l m p) : Follows d n (primary m) (Grammar.primary p) := by
  refine Follows.traced _ (follows_accept?_bind (by decide) ?_ fun _ _ _ => follows_pure _)
  refine follows_accept?_bind (by decide) ?_ fun _ _ _ => follows_pure _
  refine follows_accept?_bind (by decide) (follows_failAtPeek _) fun paren l hl => ?_
  refine (h l hl).bind hnarrows fun inner => ?_
  exact follows_expect_bind (by decide) fun _ _ _ => follows_pure _

/-- An assignment sign that is to blame has been passed long before. -/
lemma fail_eq_outcome {α : Type} {s s' : State} {sign : Token} {rest mid : List Token}
    (hat : d.At s (sign :: rest)) (hat' : d.At s' mid) :
    (fail ⟨.invalidTarget, sign, s.current⟩ : Walk α) d.toSetup s' =
      d.outcome s' (Parser.failAtTarget (sign :: rest) mid) := by
  have hresult : (Parser.failAtTarget (sign :: rest) mid : Reply α).result =
      .error ⟨.invalidTarget, sign :: rest, mid⟩ := rfl
  rw [Prepared.outcome_of_error hresult, hat'.past_eq_self rfl rfl (left_of_error hresult),
    hat.current_eq]
  rfl

lemma follows_assignment_succ (hunary : Follows d n (unary fuel) (Grammar.unary fuel))
    (hfuel : n < fuel)
    (hassignment : ∀ l, l < n → Follows d l (assignment fuel) (Grammar.assignment fuel)) :
    Follows d n (assignment (fuel + 1)) (Grammar.assignment (fuel + 1)) := by
  obtain ⟨-, hnassignment, hnunary⟩ := compositional_narrows.expression_assignment_unary fuel
  rw [assignment, Grammar.assignment]
  refine ((follows_equality hunary hnunary hfuel).bind (compositional_narrows.equality hnunary fuel)
    fun target => ?_).traced _
  intro s ts hat hts
  refine (bind_ok position_apply).trans ?_
  rw [Prepared.outcome_bind_of_ok Parser.result_unread, hat.past_eq_self rfl rfl rfl]
  refine bind_eq_outcome hat (follows_accept? (by decide) hat hts) (narrows_accept? _ ts)
    fun o mid s' hresult hat' => ?_
  by_cases hstarts : Starts [.sign .equal] ts
  · obtain ⟨sign, rest, rfl, hkind⟩ := hstarts.exists_cons
    rw [Parser.result_accept?_cons hkind] at hresult
    cases hresult
    have hshorter : mid.length < n := Nat.lt_of_succ_le hts
    refine bind_eq_outcome hat' (hassignment _ hshorter hat' (Nat.le_refl _)) (hnassignment mid)
      fun value after s'' _ hat'' => ?_
    cases target with
    | name token => exact follows_pure _ hat'' (Nat.le_refl _)
    | _ => exact fail_eq_outcome hat hat''
  · rw [Parser.result_accept?_of_not_starts hstarts] at hresult
    cases hresult
    exact follows_pure target hat' (Nat.le_refl _)

/-- The bounds that the machine does not reach on `n` tokens: `3 n + 3` for expressions, and one
less for each category on the way down. -/
lemma follows_expression_assignment_unary (d : Prepared) (fuel n : Nat) :
    (3 * n + 3 ≤ fuel → Follows d n (expression fuel) (Grammar.expression fuel)) ∧
      (3 * n + 2 ≤ fuel → Follows d n (assignment fuel) (Grammar.assignment fuel)) ∧
        (3 * n + 1 ≤ fuel → Follows d n (unary fuel) (Grammar.unary fuel)) := by
  induction fuel generalizing n with
  | zero => exact ⟨by omega, by omega, by omega⟩
  | succ fuel ih =>
    refine ⟨fun hfuel => ?_, fun hfuel => ?_, fun hfuel => ?_⟩
    · rw [expression, Grammar.expression]
      exact ((ih n).2.1 (by omega)).traced _
    · exact follows_assignment_succ ((ih n).2.2 (by omega)) (by omega) fun l hl =>
        (ih l).2.1 (by omega)
    · obtain ⟨hnexpression, -, hnunary⟩ := compositional_narrows.expression_assignment_unary fuel
      rw [unary, Grammar.unary]
      refine Follows.traced _ (follows_accept?_bind (by decide) ?_ fun operator l hl => ?_)
      · exact follows_primary hnexpression fun l hl => (ih l).1 (by omega)
      · exact ((ih l).2.2 (by omega)).bind hnunary fun right => follows_pure _

lemma follows_expression (hfuel : 3 * n + 3 ≤ fuel) :
    Follows d n (expression fuel) (Grammar.expression fuel) :=
  (follows_expression_assignment_unary d fuel n).1 hfuel

end Expressions

/-! ### Statements -/

section Statements

variable {d : Prepared} {n fuel : Nat}

lemma follows_varDeclaration (hfuel : 3 * n + 3 ≤ fuel) (keyword : Token) :
    Follows d n (varDeclaration fuel keyword) (Grammar.varDeclaration fuel keyword) := by
  refine Follows.traced _ (follows_expect_bind (by decide) fun name l hl => ?_)
  refine follows_accept?_bind (by decide) ?_ fun equal k hk => ?_
  · exact follows_expect_bind (by decide) fun _ _ _ => follows_pure _
  · refine (follows_expression (by omega)).bind (compositional_narrows.expression fuel) fun e => ?_
    exact follows_expect_bind (by decide) fun _ _ _ => follows_pure _

lemma follows_printStatement (hfuel : 3 * n + 3 ≤ fuel) (keyword : Token) :
    Follows d n (printStatement fuel keyword) (Grammar.printStatement fuel keyword) := by
  refine Follows.traced _ ?_
  refine (follows_expression hfuel).bind (compositional_narrows.expression fuel) fun e => ?_
  exact follows_expect_bind (by decide) fun _ _ _ => follows_pure _

/-- The machine takes the end of input for the first token of an expression that is not there, but
that expression cannot be read. -/
lemma follows_expressionStatement (hfuel : 3 * n + 3 ≤ fuel) :
    Follows d n (expressionStatement fuel) (Grammar.expressionStatement fuel) := by
  refine Follows.traced _ fun s ts hat hts => ?_
  refine (bind_ok hat.peek).trans ?_
  rw [Prepared.outcome_bind_of_ok Parser.result_unread, hat.past_eq_self rfl rfl rfl]
  refine bind_eq_outcome hat (follows_expression hfuel hat hts)
    (compositional_narrows.expression fuel ts) fun e mid s' hresult hat' => ?_
  have hstart : ts.headD d.last = ts.headD (Token.atEnd 1) := by
    cases ts with
    | cons t ts => rfl
    | nil =>
      obtain ⟨E, -, htokens⟩ := expression_sound fuel hresult
      have hempty : E.tokens = [] := (List.append_eq_nil_iff.1 htokens.symm).1
      exact absurd hempty E.tokens_ne_nil
  rw [hstart]
  exact follows_expect_bind (by decide) (fun _ _ _ => follows_pure _) hat' (Nat.le_refl _)

lemma follows_ifStatement {m : Walk Stmt} {p : Parser Stmt} (hnarrows : Narrows p)
    (h : ∀ l, l < n → Follows d l m p) (hfuel : 3 * n + 3 ≤ fuel) (keyword : Token) :
    Follows d n (ifStatement m fuel keyword) (Grammar.ifStatement p fuel keyword) := by
  refine Follows.traced _ (follows_expect_bind (by decide) fun opening l hl => ?_)
  refine (follows_expression (by omega)).bind (compositional_narrows.expression fuel)
    fun condition => follows_expect_bind (by decide) fun closing k hk => ?_
  refine (h k (by omega)).bind hnarrows fun consequence => ?_
  refine follows_accept?_bind (by decide) (follows_pure _) fun otherwise i hi => ?_
  exact (h i (by omega)).bind hnarrows fun alternative => follows_pure _

lemma follows_blockStatement {m : Walk (List Stmt)} {p : Parser (List Stmt)}
    (hnarrows : Narrows p) (h : Follows d n m p) (brace : Token) :
    Follows d n (blockStatement m brace) (Grammar.blockStatement p brace) := by
  refine Follows.traced _ (h.bind hnarrows fun body => ?_)
  exact follows_expect_bind (by decide) fun _ _ _ => follows_pure _

lemma follows_statement_succ
    (hstatement : ∀ l, l < n → Follows d l (statement fuel) (Grammar.statement d.mode fuel))
    (hdeclarations : ∀ l, l < n → ∀ closing,
      Follows d l (declarations closing fuel) (Grammar.declarations d.mode closing fuel))
    (hfuel : 3 * n + 3 ≤ fuel) :
    Follows d n (statement (fuel + 1)) (Grammar.statement d.mode (fuel + 1)) := by
  obtain ⟨hnstatement, -, hndeclarations⟩ :=
    narrows_statement_declaration_declarations d.mode fuel
  rw [statement, Grammar.statement]
  refine Follows.traced _ (follows_accept?_bind (by decide) ?_ fun keyword l hl => ?_)
  · refine follows_accept?_bind (by decide) ?_ fun keyword l hl => ?_
    · refine follows_accept?_bind (by decide) (follows_expressionStatement hfuel)
        fun brace l hl => ?_
      exact follows_blockStatement (hndeclarations _) (hdeclarations l hl _) brace
    · exact follows_printStatement (by omega) keyword
  · exact follows_ifStatement hnstatement (fun k hk => hstatement k (by omega)) (by omega) keyword

/-- In front of a token, on texts of at most `n` tokens, the machine reads a declaration as the
parser does. -/
def FollowsDeclaration (d : Prepared) (n fuel : Nat) : Prop :=
  ∀ ⦃s t ts⦄, d.At s (t :: ts) → (t :: ts).length ≤ n →
    declaration fuel d.toSetup s = d.outcome s (Grammar.declaration d.mode fuel (t :: ts))

lemma followsDeclaration_succ
    (hstatement : Follows d n (statement fuel) (Grammar.statement d.mode fuel))
    (hfuel : 3 * n + 3 ≤ fuel) : FollowsDeclaration d n (fuel + 1) := by
  intro s t ts hat hts
  rw [declaration]
  refine progressing_eq_outcome hat ?_ (advances_declaration d.mode (fuel + 1))
  rw [Grammar.declaration]
  refine traced_eq_outcome _ hat fun s' hat' => recovering_eq_outcome hat' ?_ ?_ (by omega)
  · refine follows_accept?_bind (by decide) hstatement (fun keyword l hl => ?_) hat' hts
    exact follows_varDeclaration (by omega) keyword
  · have hnarrows := (narrows_statement_declaration_declarations d.mode fuel).1
    refine narrows_bind (narrows_accept? _) (fun keyword? => ?_) _
    cases keyword? with
    | some keyword => exact compositional_narrows.varDeclaration fuel keyword
    | none => exact hnarrows

lemma follows_declarations_succ {closing : List Kind} (hdeclaration : FollowsDeclaration d n fuel)
    (hdeclarations : ∀ l, l < n →
      Follows d l (declarations closing fuel) (Grammar.declarations d.mode closing fuel)) :
    Follows d n (declarations closing (fuel + 1))
      (Grammar.declarations d.mode closing (fuel + 1)) := by
  intro s ts hat hts
  obtain ⟨-, hndeclaration, hndeclarations⟩ :=
    narrows_statement_declaration_declarations d.mode fuel
  rw [declarations, Grammar.declarations, Prepared.outcome_bind_of_ok Parser.result_unread,
    hat.past_eq_self rfl rfl rfl]
  cases ts with
  | nil =>
    have hnothing := follows_pure ([] : List Stmt) hat (Nat.le_refl _)
    refine (bind_ok hat.peek).trans ?_
    split_ifs with hclosing
    · exact hnothing
    · exact (bind_ok hat.isAtEnd_nil).trans hnothing
  | cons t ts =>
    have hpeek : peek d.toSetup s = .ok t s := hat.peek
    refine (bind_ok hpeek).trans ?_
    dsimp only
    by_cases hclosing : t.kind ∈ closing
    · rw [if_pos hclosing, if_pos hclosing]
      exact follows_pure _ hat (Nat.le_refl _)
    · rw [if_neg hclosing, if_neg hclosing]
      refine (bind_ok hat.isAtEnd_cons).trans ?_
      refine bind_eq_outcome hat (hdeclaration hat hts) (hndeclaration _)
        fun first mid s' hfirst hat' => ?_
      have hshorter := (advances_declaration d.mode fuel hfirst).length_le
      refine bind_eq_outcome hat' (hdeclarations ts.length (Nat.lt_of_succ_le hts) hat' hshorter)
        (hndeclarations closing _) fun others rest s'' _ hat'' => ?_
      exact follows_pure _ hat'' (Nat.le_refl _)

/-- The bounds that the machine does not reach on `n` tokens: `3 n + 6` for declarations, and one
less for each category on the way down. -/
lemma follows_statement_declaration_declarations (d : Prepared) (fuel n : Nat) :
    (3 * n + 4 ≤ fuel → Follows d n (statement fuel) (Grammar.statement d.mode fuel)) ∧
      (3 * n + 5 ≤ fuel → FollowsDeclaration d n fuel) ∧
      (3 * n + 6 ≤ fuel → ∀ closing,
        Follows d n (declarations closing fuel) (Grammar.declarations d.mode closing fuel)) := by
  induction fuel generalizing n with
  | zero => exact ⟨by omega, by omega, by omega⟩
  | succ fuel ih =>
    refine ⟨fun hfuel => ?_, fun hfuel => ?_, fun hfuel closing => ?_⟩
    · exact follows_statement_succ (fun l hl => (ih l).1 (by omega))
        (fun l hl => (ih l).2.2 (by omega)) (by omega)
    · exact followsDeclaration_succ ((ih n).1 (by omega)) (by omega)
    · exact follows_declarations_succ ((ih n).2.1 (by omega)) fun l hl =>
        (ih l).2.2 (by omega) closing

end Statements

/-! ### Programs -/

/-- The array has an end of input behind the tokens that are read. -/
lemma exists_closed_eq (tokens : List Token) :
    ∃ beyond, closed tokens = body tokens ++ stop tokens :: beyond := by
  cases hfind : tokens.find? (·.kind = .endOfInput) with
  | some last =>
    obtain ⟨hlast, front, beyond, rfl, hfront⟩ := List.find?_eq_some_iff_append.1 hfind
    have hbody : body (front ++ last :: beyond) = front := by
      rw [body_append_of_forall_ne (by simpa using hfront), body,
        List.takeWhile_cons_of_neg (by simpa using hlast), List.append_nil]
    have hstop : stop (front ++ last :: beyond) = last := by
      rw [stop, hfind]
    rw [hbody, hstop, closed]
    split
    · next hnone => simp at hnone
    · split_ifs
      · exact ⟨beyond, rfl⟩
      · exact ⟨_, List.append_assoc _ _ _⟩
  | none =>
    have hkinds : ∀ t ∈ tokens, t.kind ≠ .endOfInput := by simpa using hfind
    rw [body_of_forall_ne hkinds, stop, hfind, closed]
    cases hlast : tokens.getLast? with
    | none => exact ⟨[], by rw [List.getLast?_eq_none_iff.1 hlast]; rfl⟩
    | some t =>
      dsimp only
      rw [if_neg (hkinds t (List.mem_of_getLast? hlast))]
      exact ⟨[], rfl⟩

/-- The array that a program is read from. -/
def prepared (mode : Mode) (tracing : Bool) (tokens : List Token) : Prepared where
  tokens := closed tokens
  mode := mode
  tracing := tracing
  body := body tokens
  last := stop tokens
  tokens_eq := exists_closed_eq tokens
  kind_body := fun t ht => by simpa using List.mem_takeWhile_imp ht
  kind_last := kind_stop tokens

lemma length_body_le (tokens : List Token) : (body tokens).length ≤ tokens.length :=
  (List.takeWhile_prefix _).length_le

/-- The machine gives the program or its mistakes, and the trace. -/
lemma read_eq_readTokens (mode : Mode) (tracing : Bool) {fuel : Nat} {tokens : List Token}
    (hfuel : 3 * tokens.length + 6 ≤ fuel) :
    read mode tracing fuel tokens =
      .ok ⟨(readTokens mode tokens).result,
        if tracing then traceText (readTokens mode tokens).trace else []⟩ := by
  have hbody := length_body_le tokens
  have hat : (prepared mode tracing tokens).At ⟨0, 0, [], []⟩ (body tokens) :=
    ⟨List.suffix_refl _, Nat.zero_add _, Int.le_refl _⟩
  have hfollows := (follows_statement_declaration_declarations (prepared mode tracing tokens) fuel
    (body tokens).length).2.2 (by omega) []
  have hrun : declarations [] fuel ⟨closed tokens, mode, tracing⟩ ⟨0, 0, [], []⟩ =
      (prepared mode tracing tokens).outcome ⟨0, 0, [], []⟩ (program mode (body tokens)) := by
    rw [program_eq_declarations mode (by omega : 3 * (body tokens).length + 6 ≤ fuel)]
    exact hfollows hat (Nat.le_refl _)
  rw [read, hrun, readTokens]
  rcases program mode (body tokens) with ⟨spans, overcome, failure | ⟨statements, rest⟩⟩
  · rfl
  · cases overcome with
    | nil => rfl
    | cons first others => rfl

/-- What comes after an end of input plays no part. -/
lemma readTokens_append_beyond (mode : Mode) (tokens beyond : List Token) {last : Token}
    (hlast : last.kind = .endOfInput) :
    readTokens mode (tokens ++ last :: beyond) = readTokens mode (tokens ++ [last]) := by
  have hbody : body (tokens ++ last :: beyond) = body (tokens ++ [last]) := by
    simp [body, List.takeWhile_append, hlast]
  have hstop : stop (tokens ++ last :: beyond) = stop (tokens ++ [last]) := by
    simp [stop, List.find?_append, hlast]
  simp only [readTokens, hbody, hstop]

/-- In front of a token the index stands in front of a text that has one. -/
lemma exists_at_cons (mode : Mode) (tracing : Bool) {tokens : List Token} {s : State}
    (hcurrent : s.current < (body tokens).length) (hlevel : 0 ≤ s.level) :
    ∃ t ts, (prepared mode tracing tokens).At s (t :: ts) := by
  obtain ⟨t, ts, hts⟩ : ∃ t ts, (body tokens).drop s.current = t :: ts :=
    List.exists_cons_of_ne_nil (mt List.drop_eq_nil_iff.1 (Nat.not_le.2 hcurrent))
  refine ⟨t, ts, ?_, ?_, hlevel⟩
  · rw [← hts]
    exact List.drop_suffix _ _
  · rw [← hts, List.length_drop]
    exact Nat.add_sub_cancel' (Nat.le_of_lt hcurrent)

/-- A declaration in front of a token does not fault.  Unless it fails, which it only does when
reading stops at the first mistake, it moves the index on, and never behind the end of input. -/
lemma declaration_progress (mode : Mode) (tracing : Bool) {tokens : List Token} {s : State}
    {fuel : Nat} (hcurrent : s.current < (body tokens).length) (hlevel : 0 ≤ s.level)
    (hfuel : 3 * tokens.length + 5 ≤ fuel) :
    (∃ o s', declaration fuel ⟨closed tokens, mode, tracing⟩ s = .ok o s' ∧
        s.current < s'.current ∧ s'.current ≤ (body tokens).length) ∨
      mode = .failFast ∧
        ∃ e s', declaration fuel ⟨closed tokens, mode, tracing⟩ s = .failed e s' := by
  obtain ⟨t, ts, hat⟩ := exists_at_cons mode tracing hcurrent hlevel
  have hlength : s.current + (ts.length + 1) = (body tokens).length := hat.current
  have hbody := length_body_le tokens
  have hrun : declaration fuel ⟨closed tokens, mode, tracing⟩ s =
      (prepared mode tracing tokens).outcome s (Grammar.declaration mode fuel (t :: ts)) := by
    refine (follows_statement_declaration_declarations (prepared mode tracing tokens) fuel
      (t :: ts).length).2.1 ?_ hat (Nat.le_refl _)
    rw [List.length_cons]
    omega
  cases hresult : (Grammar.declaration mode fuel (t :: ts)).result with
  | ok r =>
    obtain ⟨o, rest⟩ := r
    have hshorter := (advances_declaration mode fuel hresult).length_le
    have hmoved : ((prepared mode tracing tokens).past s
        (Grammar.declaration mode fuel (t :: ts))).current =
          (body tokens).length - rest.length := by
      rw [Prepared.current_past, left_of_ok hresult]
      rfl
    rw [Prepared.outcome_of_ok hresult] at hrun
    exact .inl ⟨o, _, hrun, by omega, by omega⟩
  | error failure =>
    rw [Prepared.outcome_of_error hresult] at hrun
    refine .inr ⟨?_, _, _, hrun⟩
    cases mode with
    | failFast => rfl
    | recovering =>
      obtain ⟨k, rfl⟩ : ∃ k, fuel = k + 1 := ⟨fuel - 1, by omega⟩
      obtain ⟨o, rest, hok, -⟩ := exists_result_declaration_recovering k t ts
      rw [hok] at hresult
      cases hresult

/-- Reading with an index is safe for every list of tokens, in either mode, traced or not.  With any
bound that is large enough for the number of tokens the machine ends without a fault: it looks at no
index out of range, indents no line by less than nothing, and no declaration in front of a token
comes back without a failure where it began.  What it gives is the result and the trace of reading
from a list.  A declaration that begins in front of a token, at whatever index and level, moves the
index on, but not behind the first end of input.  And what comes after the first end of input plays
no part. -/
theorem reading_by_index_is_safe (mode : Mode) (tracing : Bool) (tokens : List Token) :
    (∀ fuel, 3 * tokens.length + 6 ≤ fuel →
      read mode tracing fuel tokens =
        .ok ⟨(readTokens mode tokens).result,
          if tracing then traceText (readTokens mode tokens).trace else []⟩) ∧
    (∀ (s : State) (fuel : Nat), s.current < (body tokens).length → 0 ≤ s.level →
      3 * tokens.length + 5 ≤ fuel →
        (∃ o s', declaration fuel ⟨closed tokens, mode, tracing⟩ s = .ok o s' ∧
          s.current < s'.current ∧ s'.current ≤ (body tokens).length) ∨
        mode = .failFast ∧
          ∃ e s', declaration fuel ⟨closed tokens, mode, tracing⟩ s = .failed e s') ∧
    ∀ last beyond, last.kind = .endOfInput →
      readTokens mode (tokens ++ last :: beyond) = readTokens mode (tokens ++ [last]) := by
  refine ⟨fun fuel hfuel => ?_, fun s fuel hcurrent hlevel hfuel => ?_, fun last beyond hlast => ?_⟩
  · exact read_eq_readTokens mode tracing hfuel
  · exact declaration_progress mode tracing hcurrent hlevel hfuel
  · exact readTokens_append_beyond mode tokens beyond hlast

end LoxScript.Cursor
