import LoxScript.Proofs.Grammar.Front

/-!
# Completing a text

A text that is read to its end, but is no phrase yet, can be completed.  What is missing is told by
the rule that failed: a name where an expression has to come, and then the parentheses, braces and
semicolons that are still open.  With these the parser gets through to whatever follows.  The only
exception is an assignment whose target cannot be assigned to, for that is found only when its value
has been read.

The induction is on the bound of the parser, along its rules.  Parts that were read before the end
of the text are read again, by soundness and completeness.
-/

namespace LoxScript.Grammar

open LoxScript.Parser

/-- The words that complete a text. -/
inductive Filler where
  | name | leftParen | rightParen | rightBrace | semicolon
  deriving DecidableEq

namespace Filler

def kind : Filler → Kind
  | name => .identifier
  | leftParen => .sign .leftParen
  | rightParen => .sign .rightParen
  | rightBrace => .sign .rightBrace
  | semicolon => .sign .semicolon

def text : Filler → Bytes
  | name => utf8 "x"
  | leftParen => Sign.leftParen.text
  | rightParen => Sign.rightParen.text
  | rightBrace => Sign.rightBrace.text
  | semicolon => Sign.semicolon.text

/-- The filler on a line. -/
def token (line : Int) (x : Filler) : Token :=
  ⟨x.kind, x.text, .nil, line⟩

/-- The filler as a word of its kind. -/
def word (line : Int) (x : Filler) : Word [x.kind] :=
  ⟨x.token line, List.mem_singleton_self _⟩

end Filler

/-- Fillers on a line. -/
def fill (line : Int) (fillers : List Filler) : List Token :=
  fillers.map (Filler.token line)

@[simp]
lemma fill_nil_append (line : Int) (rest : List Token) : fill line [] ++ rest = rest := rfl

@[simp]
lemma fill_cons_append (line : Int) (x : Filler) (fillers : List Filler) (rest : List Token) :
    fill line (x :: fillers) ++ rest = x.token line :: (fill line fillers ++ rest) := rfl

/-- Fillers can be taken for a part of the rest. -/
lemma fill_append_append (line : Int) (fillers others : List Filler) (rest : List Token) :
    fill line (fillers ++ others) ++ rest = fill line fillers ++ (fill line others ++ rest) := by
  simp [fill]

/-- The reading gets through to the rest, or finds a target that cannot be assigned to. -/
def Passes {α : Type} (r : Except Failure (α × List Token)) (rest : List Token) : Prop :=
  (∃ a, r = .ok (a, rest)) ∨ ∃ f, r = .error f ∧ f.cause = .invalidTarget

section Sequence

variable {α β : Type} {p : Parser α} {f : α → Parser β} {ts mid rest : List Token}

lemma passes_ok (a : α) (rest : List Token) : Passes (.ok (a, rest)) rest := .inl ⟨a, rfl⟩

/-- A wrong target ends the reading, so the next part need not care for it. -/
lemma Passes.bind (h : Passes (p ts).result mid) (hf : ∀ a, Passes (f a mid).result rest) :
    Passes ((p >>= f) ts).result rest := by
  rcases h with ⟨a, ha⟩ | ⟨failure, hfailure, hcause⟩
  · rw [result_bind_of_ok ha]
    exact hf a
  · rw [result_bind_of_error hfailure]
    exact .inr ⟨failure, rfl, hcause⟩

/-- A filler of the kind that has to come is taken. -/
lemma passes_expect {line : Int} {x : Filler} {kind : Kind} (hkind : x.kind = kind)
    {what : Expected} {g : Token → Parser β} (h : Passes (g (x.token line) ts).result rest) :
    Passes ((expect kind what >>= g) (x.token line :: ts)).result rest := by
  have htoken : (x.token line).kind = kind := hkind
  rwa [result_bind_of_ok (result_expect_cons htoken)]

/-- What is missing at the end is to blame only if nothing is left. -/
lemma eq_nil_of_result_expect {kind : Kind} {what : Expected} {g : Token → Parser β}
    {failure : Failure} (h : ((expect kind what >>= g) ts).result = .error failure)
    (hblamed : failure.blamed = []) :
    ts = [] ∨ ∃ t mid, t.kind ∈ [kind] ∧ ts = t :: mid ∧ (g t mid).result = .error failure := by
  rcases result_expect_bind_eq_error.1 h with ⟨-, rfl⟩ | hmore
  · exact .inl hblamed
  · exact .inr hmore

/-- A part with a token that has to come after it is read to the end, or the failure comes later. -/
lemma spent_of_expect_error {kind : Kind} {what : Expected} {g : α → Token → Parser β}
    {failure : Failure}
    (h : ((p >>= fun a => expect kind what >>= g a) ts).result = .error failure)
    (hblamed : failure.blamed = []) :
    Spent (p ts).result ∨ ∃ a t mid, t.kind ∈ [kind] ∧ (p ts).result = .ok (a, t :: mid) ∧
      (g a t mid).result = .error failure := by
  rcases result_bind_eq_error.1 h with herror | ⟨a, mid, ha, hexpect⟩
  · exact .inl (.inr ⟨failure, herror, hblamed⟩)
  · rcases eq_nil_of_result_expect hexpect hblamed with rfl | ⟨t, mid', ht, rfl, hg⟩
    · exact .inl (.inl ⟨a, ha⟩)
    · exact .inr ⟨a, t, mid', ht, ha, hg⟩

end Sequence

variable (line : Int)

/-- With some fillers after them, the parser gets through the tokens to any rest that can follow. -/
def Mends {α : Type} (p : Nat → Parser α) (slack : Nat) (Follows : List Token → Prop)
    (ts : List Token) : Prop :=
  ∃ fillers : List Filler, ∀ ⦃fuel : Nat⦄,
    3 * (ts.length + fillers.length) + slack ≤ fuel + 1 → ∀ ⦃rest : List Token⦄, Follows rest →
      Passes (p fuel (ts ++ (fill line fillers ++ rest))).result rest

/-- Whatever the parser reads to its end can be completed. -/
def Mendable {α : Type} (p : Nat → Parser α) (slack : Nat) (Follows : List Token → Prop)
    (fuel : Nat) : Prop :=
  ∀ ⦃ts : List Token⦄, 3 * ts.length + slack ≤ fuel + 1 → Spent (p fuel ts).result →
    Mends line p slack Follows ts

section Rules

variable {line} {α β : Type} {p q : Nat → Parser α} {g : Nat → α → Parser β} {slack slack' : Nat}
  {Follows Between : List Token → Prop} {ts mid : List Token}

/-- A rule is completed with its first part, if the other parts need only some more fillers. -/
lemma Mends.bind (h : Mends line p slack Between ts) (others : List Filler)
    (hslack : slack ≤ slack' + 3 * others.length)
    (hbetween : ∀ ⦃rest⦄, Follows rest → Between (fill line others ++ rest))
    (hg : ∀ ⦃fuel⦄, 3 * others.length + slack' ≤ fuel + 1 → ∀ ⦃rest⦄, Follows rest →
      ∀ a, Passes (g fuel a (fill line others ++ rest)).result rest) :
    Mends line (fun fuel => p fuel >>= g fuel) slack' Follows ts := by
  obtain ⟨fillers, hfillers⟩ := h
  refine ⟨fillers ++ others, fun fuel hfuel rest hrest => ?_⟩
  rw [List.length_append] at hfuel
  rw [fill_append_append]
  exact (hfillers (by omega) (hbetween hrest)).bind (hg (by omega) hrest)

/-- What was read before the part that is completed does not change. -/
lemma Mends.step (w : List Token) (h : Mends line q slack Follows mid)
    (hslack : slack ≤ slack' + 3 * w.length)
    (hstep : ∀ ⦃fuel⦄, 3 * w.length + slack' ≤ fuel + 1 → ∀ more,
      (p fuel (w ++ (mid ++ more))).result = (q fuel (mid ++ more)).result) :
    Mends line p slack' Follows (w ++ mid) := by
  obtain ⟨fillers, hfillers⟩ := h
  refine ⟨fillers, fun fuel hfuel rest hrest => ?_⟩
  rw [List.length_append] at hfuel
  rw [List.append_assoc, hstep (by omega)]
  exact hfillers (by omega) hrest

/-- A filler can stand before those of the rest of the rule. -/
lemma Mends.fill_cons (x : Filler) (h : Mends line q slack Follows [])
    (hslack : slack ≤ slack' + 3)
    (hstep : ∀ fuel more, (p fuel (x.token line :: more)).result = (q fuel more).result) :
    Mends line p slack' Follows [] := by
  obtain ⟨fillers, hfillers⟩ := h
  refine ⟨x :: fillers, fun fuel hfuel rest hrest => ?_⟩
  rw [List.length_cons] at hfuel
  rw [List.nil_append, fill_cons_append, hstep]
  exact hfillers (by omega) hrest

/-- A text that is not empty leaves the parser the step it takes. -/
lemma Mends.succ (hts : ts ≠ []) (h : Mends line (fun fuel => p (fuel + 1)) slack Follows ts) :
    Mends line p (slack + 1) Follows ts := by
  obtain ⟨fillers, hfillers⟩ := h
  refine ⟨fillers, fun fuel hfuel rest hrest => ?_⟩
  have hpos := List.length_pos_iff.2 hts
  obtain ⟨fuel, rfl⟩ : ∃ n, fuel = n + 1 := ⟨fuel - 1, by omega⟩
  exact hfillers (by omega) hrest

/-- Only failures at the end of a text that is not empty are left, if the parser reads again what it
has read. -/
lemma mendable_of_error {fuel : Nat} (hnil : Mends line p slack Follows [])
    (hread : ∀ ⦃ts : List Token⦄ ⦃a : α⦄, (p fuel ts).result = .ok (a, []) →
      ∀ ⦃fuel' : Nat⦄, 3 * ts.length + slack ≤ fuel' + 1 → ∀ ⦃rest : List Token⦄, Follows rest →
        (p fuel' (ts ++ rest)).result = .ok (a, rest))
    (herror : ∀ ⦃ts : List Token⦄ ⦃f : Failure⦄, ts ≠ [] → 3 * ts.length + slack ≤ fuel + 1 →
      (p fuel ts).result = .error f → f.blamed = [] → Mends line p slack Follows ts) :
    Mendable line p slack Follows fuel := by
  intro ts hfuel hspent
  by_cases hts : ts = []
  · rwa [hts]
  rcases hspent with ⟨a, ha⟩ | ⟨f, hf, hblamed⟩
  · exact ⟨[], fun fuel' hfuel' rest hrest => .inl ⟨a, hread ha hfuel' hrest⟩⟩
  · exact herror hts hfuel hf hblamed

end Rules

/-! ### Expressions -/

/-- What can follow an expression of the category. -/
abbrev ExprCategory.Follows (c : ExprCategory) (rest : List Token) : Prop :=
  ¬ Starts c.continuations rest

abbrev ExprCategory.Mendable (c : ExprCategory) (fuel : Nat) : Prop :=
  Grammar.Mendable line c.parser c.slack c.Follows fuel

/-- A name as an expression of any category. -/
def ExprTree.atom (token : Word [.identifier]) : (c : ExprCategory) → ExprTree c
  | .primary => name token
  | .unary => ofPrimary (name token)
  | .level .factor => ofOperand (l := .factor) (ofPrimary (name token))
  | .level .term => ofOperand (l := .term) (ofOperand (l := .factor) (ofPrimary (name token)))
  | .level .comparison => ofOperand (l := .comparison) (ofOperand (l := .term)
      (ofOperand (l := .factor) (ofPrimary (name token))))
  | .level .equality => ofName token
  | .assignment => ofEquality (ofName token)
  | .expression => expression (ofEquality (ofName token))

lemma ExprTree.tokens_atom (token : Word [.identifier]) (c : ExprCategory) :
    (atom token c).tokens = [token.1] := by
  cases c with
  | level l => cases l <;> rfl
  | expression | assignment | unary | primary => rfl

/-- Where nothing has been read, a name completes the text. -/
lemma mends_nil (c : ExprCategory) : Mends line c.parser c.slack c.Follows [] := by
  refine ⟨[.name], fun fuel hfuel rest hrest => .inl ?_⟩
  let D := ExprTree.atom (Filler.name.word line) c
  have htokens : D.tokens = [Filler.name.token line] := ExprTree.tokens_atom _ c
  have hfuel' : 3 * D.tokens.length + c.slack ≤ fuel + 1 := by
    rw [htokens]
    exact hfuel
  have hread := D.completes.reads hfuel' hrest
  rw [htokens] at hread
  exact ⟨_, hread⟩

/-- What was read once is read again before any rest that can follow. -/
lemma exists_reread {c : ExprCategory} {fuel : Nat} {ts mid : List Token} {e : Expr}
    (h : (c.parser fuel ts).result = .ok (e, mid)) :
    ∃ w, w ≠ [] ∧ ts = w ++ mid ∧ ∀ fuel', 3 * w.length + c.slack ≤ fuel' + 1 →
      ∀ rest, c.Follows rest → (c.parser fuel' (w ++ rest)).result = .ok (e, rest) := by
  obtain ⟨D, rfl, rfl⟩ := parser_sound c fuel h
  exact ⟨D.tokens, D.tokens_ne_nil, rfl, fun fuel' hfuel' rest hrest =>
    D.completes.reads hfuel' hrest⟩

variable {line}

lemma ExprCategory.mendable_of_error {c : ExprCategory} {fuel : Nat}
    (h : ∀ ⦃ts : List Token⦄ ⦃f : Failure⦄, ts ≠ [] → 3 * ts.length + c.slack ≤ fuel + 1 →
      (c.parser fuel ts).result = .error f → f.blamed = [] →
        Mends line c.parser c.slack c.Follows ts) : c.Mendable line fuel := by
  refine Grammar.mendable_of_error (mends_nil line c) (fun ts e he fuel' hfuel' rest hrest => ?_) h
  obtain ⟨w, -, rfl, hreread⟩ := exists_reread he
  rw [List.append_nil] at hfuel' ⊢
  exact hreread fuel' hfuel' rest hrest

/-- A filler that does not extend an expression ends it. -/
lemma follows_expression_filler {x : Filler}
    (hx : x.kind ∉ ExprCategory.expression.continuations) (rest : List Token) :
    ExprCategory.expression.Follows (x.token line :: rest) :=
  StmtTree.not_starts_of_kind (x.word line).2 hx

lemma mendable_primary {fuel : Nat} (h : ExprCategory.expression.Mendable line fuel) :
    ExprCategory.primary.Mendable line fuel := by
  refine ExprCategory.mendable_of_error fun ts f hts hfuel hf hblamed => ?_
  rw [ExprCategory.parser, primary, result_traced, result_accept?_bind_eq] at hf
  rcases hf with ⟨-, hf⟩ | ⟨t, mid, -, rfl, hf⟩
  swap
  · cases hf
  rw [result_accept?_bind_eq] at hf
  rcases hf with ⟨-, hf⟩ | ⟨t, mid, -, rfl, hf⟩
  swap
  · cases hf
  rw [result_accept?_bind_eq] at hf
  rcases hf with ⟨-, hf⟩ | ⟨opening, mid, hopening, rfl, hf⟩
  · cases hf
    exact absurd hblamed hts
  -- Only what stands after an opening parenthesis can come to its end.
  have hspent : Spent (expression fuel mid).result := by
    rcases spent_of_expect_error hf hblamed with hspent | ⟨e, t, mid', -, -, hpure⟩
    · exact hspent
    · cases hpure
  simp only [ExprCategory.slack, List.length_cons] at hfuel
  have hinner : Mends line expression 3 ExprCategory.expression.Follows mid :=
    h (by simp only [ExprCategory.slack]; omega) hspent
  have hgrouping : Mends line (fun fuel => do
      let inner ← expression fuel
      let _ ← expect (.sign .rightParen) .parenAfterExpression
      pure (Expr.grouping opening inner)) 3 ExprCategory.primary.Follows mid :=
    hinner.bind [.rightParen] (by decide)
      (fun rest _ => follows_expression_filler (x := .rightParen) (by decide) rest)
      fun fuel' _ rest _ e => passes_expect (x := .rightParen) rfl (passes_ok _ rest)
  refine hgrouping.step [opening] (by simp [ExprCategory.slack]) fun fuel' _ more => ?_
  have hliteral : ¬ Starts literalKinds (opening :: (mid ++ more)) :=
    StmtTree.not_starts_of_kind hopening (by decide)
  have hname : ¬ Starts [.identifier] (opening :: (mid ++ more)) :=
    StmtTree.not_starts_of_kind hopening (by decide)
  rw [List.singleton_append, ExprCategory.parser, primary, result_traced,
    result_bind_of_ok (result_accept?_of_not_starts hliteral),
    result_bind_of_ok (result_accept?_of_not_starts hname),
    result_bind_of_ok (result_accept?_cons hopening)]

lemma mendable_unary {fuel : Nat} (hunary : ExprCategory.unary.Mendable line fuel)
    (hprimary : ExprCategory.primary.Mendable line fuel) :
    ExprCategory.unary.Mendable line (fuel + 1) := by
  refine ExprCategory.mendable_of_error fun ts f hts hfuel hf hblamed => ?_
  simp only [ExprCategory.slack] at hfuel
  rw [ExprCategory.parser, unary, result_traced, result_accept?_bind_eq] at hf
  refine Mends.succ hts ?_
  rcases hf with ⟨hoperator, hf⟩ | ⟨operator, mid, hoperator, rfl, hf⟩
  · have hmends : Mends line ExprCategory.primary.parser 0 ExprCategory.primary.Follows ts :=
      hprimary (by simp only [ExprCategory.slack]; omega) (.inr ⟨f, hf, hblamed⟩)
    refine hmends.step [] (Nat.zero_le _) fun fuel' _ more => ?_
    have hstart : ¬ Starts unaryOperators (ts ++ more) := by
      rwa [starts_append_of_ne_nil hts]
    rw [List.nil_append, ExprCategory.parser, unary, result_traced,
      result_bind_of_ok (result_accept?_of_not_starts hstart)]
    rfl
  · rw [List.length_cons] at hfuel
    have hspent : Spent (unary fuel mid).result := by
      rcases result_bind_eq_error.1 hf with herror | ⟨e, mid', -, hpure⟩
      · exact .inr ⟨f, herror, hblamed⟩
      · cases hpure
    have hright : Mends line unary 1 ExprCategory.unary.Follows mid :=
      hunary (by simp only [ExprCategory.slack]; omega) hspent
    have hmends : Mends line (fun fuel => do
        let right ← unary fuel
        pure (Expr.unary operator operator.lexeme right)) 1 ExprCategory.unary.Follows mid :=
      hright.bind [] (Nat.le_refl _) (fun rest hrest => hrest) fun fuel' _ rest _ e =>
        passes_ok _ rest
    refine hmends.step [operator] (by simp) fun fuel' _ more => ?_
    rw [List.singleton_append, ExprCategory.parser, unary, result_traced,
      result_bind_of_ok (result_accept?_cons hoperator)]

/-- Further operands are completed when one of them comes to its end. -/
lemma mends_chain {l : Level} {fuel : Nat} (hoperand : l.operand.Mendable line fuel) {k : Nat}
    {left : Expr} {ts : List Token} {f : Failure} (hfuel : 3 * ts.length ≤ fuel)
    (h : (chain l.operators (l.operand.parser fuel) k left ts).result = .error f)
    (hblamed : f.blamed = []) :
    Starts l.operators ts ∧ ∃ fillers : List Filler, ∀ ⦃fuel' k' : Nat⦄,
      3 * (ts.length + fillers.length) ≤ fuel' → ts.length ≤ k' →
        ∀ (left' : Expr) ⦃rest : List Token⦄, ¬ Starts (ExprCategory.level l).continuations rest →
          Passes (chain l.operators (l.operand.parser fuel') k' left'
            (ts ++ (fill line fillers ++ rest))).result rest := by
  induction k generalizing left ts with
  | zero => cases h
  | succ k ih =>
    rw [chain, result_accept?_bind_eq] at h
    rcases h with ⟨-, hpure⟩ | ⟨operator, mid, hoperator, rfl, h⟩
    · cases hpure
    rw [List.length_cons] at hfuel
    refine ⟨starts_cons.2 hoperator, ?_⟩
    rcases result_bind_eq_error.1 h with herror | ⟨r, mid', hr, hchain⟩
    · -- The operand that failed is completed, and the rest ends the phrase.
      have hfuel' : 3 * mid.length + l.operand.slack ≤ fuel + 1 := by
        rw [slack_operand]
        omega
      obtain ⟨fillers, hfillers⟩ := hoperand hfuel' (.inr ⟨f, herror, hblamed⟩)
      refine ⟨fillers, fun fuel' k' hfuel' hk' left' rest hrest => ?_⟩
      rw [List.length_cons] at hfuel' hk'
      rw [continuations_level, starts_append_kinds, not_or] at hrest
      obtain ⟨k', rfl⟩ : ∃ j, k' = j + 1 := ⟨k' - 1, by omega⟩
      have hpass : Passes (l.operand.parser fuel' (mid ++ (fill line fillers ++ rest))).result
          rest := hfillers (by rw [slack_operand]; omega) hrest.2
      rw [List.cons_append, chain, result_bind_of_ok (result_accept?_cons hoperator)]
      refine hpass.bind fun e => ?_
      rw [result_chain_of_not_starts hrest.1]
      exact passes_ok _ rest
    · -- The operand is read again, since an operator of the level follows it.
      obtain ⟨w, -, rfl, hreread⟩ := exists_reread hr
      rw [List.length_append] at hfuel
      obtain ⟨hstarts, fillers, hfillers⟩ := ih (by omega) hchain
      refine ⟨fillers, fun fuel' k' hfuel' hk' left' rest hrest => ?_⟩
      simp only [List.length_cons, List.length_append] at hfuel' hk'
      obtain ⟨k', rfl⟩ : ∃ j, k' = j + 1 := ⟨k' - 1, by omega⟩
      have hstop : ¬ Starts l.operand.continuations (mid' ++ (fill line fillers ++ rest)) :=
        (hstarts.append _).not_of_disjoint fun kind hkind =>
          ExprTree.not_mem_continuations_operand hkind
      have hread := hreread fuel' (by rw [slack_operand]; omega) _ hstop
      rw [List.cons_append, List.append_assoc, chain,
        result_bind_of_ok (result_accept?_cons hoperator), result_bind_of_ok hread]
      exact hfillers (by omega) (by omega) _ hrest

lemma mendable_level {l : Level} {fuel : Nat} (hoperand : l.operand.Mendable line fuel) :
    (ExprCategory.level l).Mendable line fuel := by
  refine ExprCategory.mendable_of_error fun ts f hts hfuel hf hblamed => ?_
  have hfuel' : 3 * ts.length + 1 ≤ fuel + 1 := hfuel
  rw [parser_level, level, result_traced] at hf
  rcases result_bind_eq_error.1 hf with herror | ⟨first, mid, hfirst, hchain⟩
  · obtain ⟨fillers, hfillers⟩ :=
      hoperand (by rwa [slack_operand]) (.inr ⟨f, herror, hblamed⟩)
    refine ⟨fillers, fun fuel' hfuel' rest hrest => ?_⟩
    have hstop : ¬ Starts (ExprCategory.level l).continuations rest := hrest
    rw [continuations_level, starts_append_kinds, not_or] at hstop
    have hpass : Passes (l.operand.parser fuel' (ts ++ (fill line fillers ++ rest))).result rest :=
      hfillers (by rwa [slack_operand]) hstop.2
    rw [parser_level, level, result_traced]
    refine hpass.bind fun e => ?_
    have hend : ¬ Starts (l.signs.map Kind.sign) rest := hstop.1
    rw [result_chain_of_not_starts hend]
    exact passes_ok _ rest
  · obtain ⟨w, -, rfl, hreread⟩ := exists_reread hfirst
    rw [List.length_append] at hfuel'
    obtain ⟨hstarts, fillers, hfillers⟩ := mends_chain hoperand (by omega) hchain hblamed
    refine ⟨fillers, fun fuel' hfuel' rest hrest => ?_⟩
    have hfuel'' : 3 * (w.length + mid.length + fillers.length) + 1 ≤ fuel' + 1 := by
      rw [List.length_append] at hfuel'
      exact hfuel'
    have hstop : ¬ Starts l.operand.continuations (mid ++ (fill line fillers ++ rest)) :=
      (hstarts.append _).not_of_disjoint fun kind hkind =>
        ExprTree.not_mem_continuations_operand hkind
    have hread := hreread fuel' (by rw [slack_operand]; omega) _ hstop
    rw [List.append_assoc, parser_level, level, result_traced, result_bind_of_ok hread]
    exact hfillers (by omega) (by omega) _ hrest

lemma mendable_equality {fuel : Nat} (hunary : ExprCategory.unary.Mendable line fuel) :
    (ExprCategory.level .equality).Mendable line fuel := by
  have hfactor := mendable_level (l := .factor) hunary
  have hterm := mendable_level (l := .term) hfactor
  have hcomparison := mendable_level (l := .comparison) hterm
  exact mendable_level (l := .equality) hcomparison

/-- The rest of an assignment, after what may be its target. -/
def afterTarget (fuel : Nat) (target : Expr) : Parser Expr := do
  let before ← unread
  match ← accept? [.sign .equal] with
  | none => pure target
  | some _ =>
    let value ← assignment fuel
    match target with
    | .name token => pure (.assign token value)
    | _ => failAtTarget before

lemma result_assignment (fuel : Nat) (ts : List Token) :
    (assignment (fuel + 1) ts).result =
      ((equality (unary fuel) fuel >>= afterTarget fuel) ts).result := by
  rw [assignment, result_traced]
  rfl

/-- A value that comes to its end is the part to complete; a wrong target is blamed on the
assignment sign. -/
lemma spent_of_afterTarget_error {fuel : Nat} {target : Expr} {ts : List Token} {f : Failure}
    (h : (afterTarget fuel target ts).result = .error f) (hblamed : f.blamed = []) :
    ∃ equal mid, equal.kind ∈ [.sign .equal] ∧ ts = equal :: mid ∧
      Spent (assignment fuel mid).result := by
  rw [afterTarget, result_bind_of_ok result_unread, result_accept?_bind_eq] at h
  rcases h with ⟨-, hpure⟩ | ⟨equal, mid, hequal, rfl, h⟩
  · cases hpure
  refine ⟨equal, mid, hequal, rfl, ?_⟩
  rcases result_bind_eq_error.1 h with herror | ⟨v, mid', -, hassign⟩
  · exact .inr ⟨f, herror, hblamed⟩
  · cases target <;> cases hassign
    all_goals cases hblamed

lemma mends_afterTarget {equal : Token} (hequal : equal.kind ∈ [.sign .equal]) (target : Expr)
    {mid : List Token} (h : Mends line assignment 2 ExprCategory.assignment.Follows mid) :
    Mends line (fun fuel => afterTarget fuel target) 2 ExprCategory.assignment.Follows
      (equal :: mid) := by
  have hassign : ∀ (before rest : List Token) (v : Expr), Passes ((match target with
      | .name token => pure (.assign token v)
      | _ => failAtTarget before : Parser Expr) rest).result rest := by
    intro before rest v
    cases target with
    | name token => exact passes_ok _ rest
    | literal | grouping | unary | binary | assign | missing => exact .inr ⟨_, rfl, rfl⟩
  obtain ⟨fillers, hfillers⟩ := h
  refine ⟨fillers, fun fuel hfuel rest hrest => ?_⟩
  rw [List.length_cons] at hfuel
  rw [List.cons_append]
  unfold afterTarget
  rw [result_bind_of_ok result_unread, result_bind_of_ok (result_accept?_cons hequal)]
  exact (hfillers (by omega) hrest).bind fun v => hassign _ rest v

lemma mendable_assignment {fuel : Nat} (hunary : ExprCategory.unary.Mendable line fuel)
    (hassignment : ExprCategory.assignment.Mendable line fuel) :
    ExprCategory.assignment.Mendable line (fuel + 1) := by
  refine ExprCategory.mendable_of_error fun ts f hts hfuel hf hblamed => ?_
  have hfuel' : 3 * ts.length + 2 ≤ fuel + 1 + 1 := hfuel
  rw [ExprCategory.parser, result_assignment] at hf
  suffices hmends : Mends line (fun fuel => equality (unary fuel) fuel >>= afterTarget fuel) 1
      ExprCategory.assignment.Follows ts from
    Mends.succ hts (hmends.step [] (Nat.le_refl _) fun fuel' _ more => result_assignment fuel' _)
  rcases result_bind_eq_error.1 hf with herror | ⟨target, mid, htarget, hrest⟩
  · -- No assignment sign follows the completed expression.
    have hequality : Spent ((ExprCategory.level .equality).parser fuel ts).result :=
      .inr ⟨f, herror, hblamed⟩
    have hmends : Mends line (fun fuel => equality (unary fuel) fuel) 1
        (ExprCategory.level .equality).Follows ts :=
      mendable_equality hunary (by simp only [ExprCategory.slack]; omega) hequality
    refine hmends.bind [] (Nat.le_refl _)
      (fun rest hstop hstarts => hstop (hstarts.mono (List.subset_cons_self _ _)))
      fun fuel' _ rest hstop e => ?_
    have hequal : ¬ Starts [.sign .equal] rest :=
      fun hstarts => hstop (hstarts.mono (List.cons_subset_cons _ (List.nil_subset _)))
    rw [fill_nil_append, afterTarget, result_bind_of_ok result_unread,
      result_bind_of_ok (result_accept?_of_not_starts hequal)]
    exact passes_ok _ rest
  · obtain ⟨equal, mid', hequal, rfl, hspent⟩ := spent_of_afterTarget_error hrest hblamed
    have hread : ((ExprCategory.level .equality).parser fuel ts).result =
        .ok (target, equal :: mid') := htarget
    obtain ⟨w, hw, rfl, hreread⟩ := exists_reread hread
    have hwpos := List.length_pos_iff.2 hw
    simp only [List.length_append, List.length_cons] at hfuel'
    have hright : Mends line assignment 2 ExprCategory.assignment.Follows mid' :=
      hassignment (by simp only [ExprCategory.slack]; omega) hspent
    refine (mends_afterTarget hequal target hright).step w (by omega) fun fuel' hfuel' more => ?_
    have hsign : ¬ Starts (ExprCategory.level .equality).continuations
        (equal :: mid' ++ more) :=
      StmtTree.not_starts_of_kind hequal (by decide)
    exact result_bind_of_ok (hreread fuel' hfuel' _ hsign)

/-- Expressions can be completed, and so can the two categories they go through. -/
lemma mendable_expression_assignment_unary (line : Int) (fuel : Nat) :
    ExprCategory.expression.Mendable line fuel ∧ ExprCategory.assignment.Mendable line fuel ∧
      ExprCategory.unary.Mendable line fuel := by
  induction fuel with
  | zero =>
    refine ⟨ExprCategory.mendable_of_error ?_, ExprCategory.mendable_of_error ?_,
      ExprCategory.mendable_of_error ?_⟩ <;>
    · intro ts f hts hfuel
      have hpos := List.length_pos_iff.2 hts
      simp only [ExprCategory.slack] at hfuel
      omega
  | succ fuel ih =>
    obtain ⟨hexpression, hassignment, hunary⟩ := ih
    refine ⟨?_, mendable_assignment hunary hassignment,
      mendable_unary hunary (mendable_primary hexpression)⟩
    refine ExprCategory.mendable_of_error fun ts f hts hfuel hf hblamed => ?_
    simp only [ExprCategory.slack] at hfuel
    have hmends : Mends line assignment 2 ExprCategory.assignment.Follows ts :=
      hassignment (by simp only [ExprCategory.slack]; omega) (.inr ⟨f, hf, hblamed⟩)
    exact Mends.succ hts (hmends.step [] (Nat.le_refl _) fun fuel' _ more => rfl)

/-- An expression that is read to its end can be completed. -/
lemma mends_expression {fuel : Nat} {ts : List Token} (hfuel : 3 * ts.length + 2 ≤ fuel)
    (h : Spent (expression fuel ts).result) :
    Mends line expression 3 ExprCategory.expression.Follows ts :=
  (mendable_expression_assignment_unary line fuel).1 (Nat.succ_le_succ hfuel) h

/-! ### Statements -/

/-- What can follow a statement: no `else` that it could take. -/
abbrev NoElse (rest : List Token) : Prop :=
  ¬ Starts [.keyword .elseWord] rest

/-- What can follow declarations: the end of the text, or a closing token. -/
abbrev Closed (closing : List Kind) (rest : List Token) : Prop :=
  rest = [] ∨ Starts closing rest

lemma Closed.noElse {closing : List Kind} (hclosing : closing ⊆ [.sign .rightBrace])
    {rest : List Token} (h : Closed closing rest) : NoElse rest := by
  rcases h with rfl | hstarts
  · exact not_starts_nil
  · exact (hstarts.mono hclosing).not_of_disjoint (by decide)

lemma exists_reread_statement {fuel : Nat} {ts mid : List Token} {s : Stmt}
    (h : (statement .failFast fuel ts).result = .ok (s, mid)) :
    ∃ w, ts = w ++ mid ∧ ∀ ⦃fuel' : Nat⦄, 3 * w.length ≤ fuel' → ∀ ⦃rest : List Token⦄,
      (Starts [.keyword .elseWord] rest → Starts [.keyword .elseWord] mid) →
        (statement .failFast fuel' (w ++ rest)).result = .ok (s, rest) := by
  obtain ⟨D, rfl, rfl, hsettled⟩ := (statement_declarations_sound fuel).1 h
  exact ⟨D.tokens, rfl, fun fuel' hfuel' rest hrest => D.reads hfuel' (hsettled.replace hrest)⟩

lemma exists_reread_declaration {fuel : Nat} {ts mid : List Token} {o : Option Stmt}
    (h : (declaration .failFast fuel ts).result = .ok (o, mid)) :
    ∃ w, w ≠ [] ∧ ts = w ++ mid ∧ ∀ ⦃fuel' : Nat⦄, 3 * w.length + 1 ≤ fuel' →
      ∀ ⦃rest : List Token⦄,
        (Starts [.keyword .elseWord] rest → Starts [.keyword .elseWord] mid) →
          (declaration .failFast fuel' (w ++ rest)).result = .ok (o, rest) := by
  obtain ⟨D, rfl, rfl, hsettled⟩ := (statement_declarations_sound fuel).2.1 h
  exact ⟨D.tokens, D.tokens_ne_nil rfl, rfl, fun fuel' hfuel' rest hrest =>
    D.reads hfuel' (hsettled.replace hrest)⟩

/-- A name with a semicolon is a statement. -/
def fillerStatement (line : Int) : StmtTree .statement :=
  .ofExprStmt (.exprStmt (.atom (Filler.name.word line) .expression) (Filler.semicolon.word line))

lemma passes_statement_fill {fuel : Nat} (hfuel : 6 ≤ fuel) (rest : List Token) :
    Passes (statement .failFast fuel (fill line [.name, .semicolon] ++ rest)).result rest := by
  have hsettled : (fillerStatement line).Settled rest := trivial
  exact .inl ⟨_, (fillerStatement line).reads hfuel hsettled⟩

lemma mends_statement_nil : Mends line (statement .failFast) 5 NoElse [] := by
  refine ⟨[.name, .semicolon], fun fuel hfuel rest _ => ?_⟩
  simp only [List.length_cons, List.length_nil] at hfuel
  exact passes_statement_fill (by omega) rest

/-- What a semicolon ends is completed with it. -/
lemma mends_expression_semicolon {ts : List Token} {slack : Nat} {what : Expected}
    {g : Nat → Expr → Token → Parser Stmt}
    (h : Mends line expression 3 ExprCategory.expression.Follows ts)
    (hg : ∀ fuel e t rest, Passes (g fuel e t rest).result rest) :
    Mends line (fun fuel => do
      let e ← expression fuel
      let t ← expect (.sign .semicolon) what
      g fuel e t) slack NoElse ts :=
  h.bind [.semicolon] (by simp)
    (fun rest _ => follows_expression_filler (x := .semicolon) (by decide) rest)
    fun fuel _ rest _ e => passes_expect (x := .semicolon) rfl (hg fuel e _ rest)

lemma mends_printStatement {fuel : Nat} {keyword : Token} {ts : List Token} {f : Failure}
    (hfuel : 3 * ts.length + 2 ≤ fuel)
    (hf : (printStatement fuel keyword ts).result = .error f) (hblamed : f.blamed = []) :
    Mends line (fun fuel => printStatement fuel keyword) 7 NoElse ts := by
  rw [printStatement, result_traced] at hf
  rcases spent_of_expect_error hf hblamed with hspent | ⟨e, t, mid, -, -, hpure⟩
  · exact mends_expression_semicolon (mends_expression hfuel hspent)
      (g := fun _ e _ => pure (.print keyword e)) fun fuel e t rest => passes_ok _ rest
  · cases hpure

lemma mends_expressionStatement {fuel : Nat} {ts : List Token} {f : Failure}
    (hfuel : 3 * ts.length + 2 ≤ fuel)
    (hf : (expressionStatement fuel ts).result = .error f) (hblamed : f.blamed = []) :
    Mends line expressionStatement 4 NoElse ts := by
  rw [expressionStatement, result_traced, result_bind_of_ok result_unread] at hf
  rcases spent_of_expect_error hf hblamed with hspent | ⟨e, t, mid, -, -, hpure⟩
  swap
  · cases hpure
  obtain ⟨fillers, hfillers⟩ := mends_expression hfuel hspent
  refine ⟨fillers ++ [.semicolon], fun fuel' hfuel' rest _ => ?_⟩
  simp only [List.length_append, List.length_singleton] at hfuel'
  have hend : ExprCategory.expression.Follows (Filler.semicolon.token line :: rest) :=
    follows_expression_filler (by decide) rest
  rw [fill_append_append, expressionStatement, result_traced, result_bind_of_ok result_unread]
  exact (hfillers (by omega) hend).bind fun e =>
    passes_expect (x := .semicolon) rfl (passes_ok _ rest)

/-- The body of a block is completed, and then the block with its closing brace. -/
lemma mends_blockStatement {fuel : Nat} {brace : Token} {ts : List Token} {f : Failure}
    (h : Mendable line (declarations .failFast [.sign .rightBrace]) 7
      (Closed [.sign .rightBrace]) fuel)
    (hfuel : 3 * ts.length + 7 ≤ fuel + 1)
    (hf : (blockStatement (declarations .failFast [.sign .rightBrace] fuel) brace ts).result =
      .error f) (hblamed : f.blamed = []) :
    Mends line (fun fuel => blockStatement (declarations .failFast [.sign .rightBrace] fuel) brace)
      7 NoElse ts := by
  rw [blockStatement, result_traced] at hf
  rcases spent_of_expect_error hf hblamed with hspent | ⟨e, t, mid, -, -, hpure⟩
  swap
  · cases hpure
  have hmends : Mends line (fun fuel => do
      let body ← declarations .failFast [.sign .rightBrace] fuel
      let _ ← expect (.sign .rightBrace) .braceAfterBlock
      pure (Stmt.block brace body)) 7 NoElse ts :=
    (h hfuel hspent).bind [.rightBrace] (by simp)
      (fun rest _ => .inr (starts_cons.2 (Filler.rightBrace.word line).2))
      fun fuel' _ rest _ body => passes_expect (x := .rightBrace) rfl (passes_ok _ rest)
  exact hmends

lemma passes_afterConsequence {p : Parser Stmt} {keyword : Token} {condition : Expr} {s : Stmt}
    {rest : List Token} (hrest : NoElse rest) :
    Passes (StmtTree.afterConsequence p keyword condition s rest).result rest := by
  rw [StmtTree.result_afterConsequence_of_not_starts hrest]
  exact passes_ok _ rest

/-- The rest of a conditional statement, from its condition on. -/
def fromCondition (fuel : Nat) (keyword : Token) : Parser Stmt := do
  let condition ← expression fuel
  let _ ← expect (.sign .rightParen) .parenAfterCondition
  let consequence ← statement .failFast fuel
  StmtTree.afterConsequence (statement .failFast fuel) keyword condition consequence

/-- After its condition, a conditional statement only needs a consequence. -/
lemma mends_fromCondition {keyword : Token} {ts : List Token}
    (h : Mends line expression 3 ExprCategory.expression.Follows ts) :
    Mends line (fun fuel => fromCondition fuel keyword) 10 NoElse ts := by
  refine h.bind [.rightParen, .name, .semicolon] (by simp)
    (fun rest _ => follows_expression_filler (x := .rightParen) (by decide) _)
    fun fuel hfuel rest hrest condition => ?_
  simp only [List.length_cons, List.length_nil] at hfuel
  have hconsequence : Passes (statement .failFast fuel
      (fill line [.name, .semicolon] ++ rest)).result rest :=
    passes_statement_fill (by omega) rest
  exact passes_expect (x := .rightParen) rfl
    (hconsequence.bind fun s => passes_afterConsequence hrest)

/-- A conditional statement is completed where its consequence or its alternative came to an end. -/
lemma mends_consequence {fuel : Nat} (h : Mendable line (statement .failFast) 5 NoElse fuel)
    {keyword : Token} {condition : Expr} {ts : List Token} {f : Failure}
    (hfuel : 3 * ts.length + 5 ≤ fuel + 1)
    (hf : ((statement .failFast fuel >>= fun consequence => StmtTree.afterConsequence
      (statement .failFast fuel) keyword condition consequence) ts).result = .error f)
    (hblamed : f.blamed = []) :
    Mends line (fun fuel => statement .failFast fuel >>= fun consequence =>
      StmtTree.afterConsequence (statement .failFast fuel) keyword condition consequence)
      5 NoElse ts := by
  rcases result_bind_eq_error.1 hf with herror | ⟨s, mid, hs, hafter⟩
  · have hconsequence := h hfuel (.inr ⟨f, herror, hblamed⟩)
    exact hconsequence.bind [] (Nat.le_refl _) (fun rest hrest => hrest)
      fun fuel' _ rest hrest s => passes_afterConsequence hrest
  · obtain ⟨w, rfl, hreread⟩ := exists_reread_statement hs
    rw [StmtTree.afterConsequence, result_accept?_bind_eq] at hafter
    rcases hafter with ⟨-, hpure⟩ | ⟨otherwise, mid, hotherwise, rfl, hafter⟩
    · cases hpure
    have hspent : Spent (statement .failFast fuel mid).result := by
      rcases result_bind_eq_error.1 hafter with herror | ⟨s', mid', -, hpure⟩
      · exact .inr ⟨f, herror, hblamed⟩
      · cases hpure
    simp only [List.length_append, List.length_cons] at hfuel
    have halternative : Mends line (fun fuel => do
        let alternative ← statement .failFast fuel
        pure (Stmt.ifElse keyword condition s alternative)) 5 NoElse mid :=
      (h (by omega) hspent).bind [] (Nat.le_refl _) (fun rest hrest => hrest)
        fun fuel' _ rest _ a => passes_ok _ rest
    have hmends : Mends line (fun fuel => StmtTree.afterConsequence (statement .failFast fuel)
        keyword condition s) 5 NoElse (otherwise :: mid) := by
      refine halternative.step [otherwise] (by simp) fun fuel' _ more => ?_
      rw [List.singleton_append, StmtTree.afterConsequence,
        result_bind_of_ok (result_accept?_cons hotherwise)]
    refine hmends.step w (by omega) fun fuel' hfuel' more => ?_
    exact result_bind_of_ok (hreread (by omega) fun _ => starts_cons.2 hotherwise)

lemma result_ifStatement_opening {fuel : Nat} {keyword opening : Token}
    (hopening : opening.kind = .sign .leftParen) (ts : List Token) :
    (ifStatement (statement .failFast fuel) fuel keyword (opening :: ts)).result =
      (fromCondition fuel keyword ts).result := by
  rw [ifStatement, result_traced, result_bind_of_ok (result_expect_cons hopening)]
  rfl

lemma mends_ifStatement {fuel : Nat} (h : Mendable line (statement .failFast) 5 NoElse fuel)
    {keyword : Token} {ts : List Token} {f : Failure} (hfuel : 3 * ts.length + 7 ≤ fuel + 1)
    (hf : (ifStatement (statement .failFast fuel) fuel keyword ts).result = .error f)
    (hblamed : f.blamed = []) :
    Mends line (fun fuel => ifStatement (statement .failFast fuel) fuel keyword) 7 NoElse ts := by
  rw [ifStatement, result_traced] at hf
  rcases eq_nil_of_result_expect hf hblamed with rfl | ⟨opening, mid, hopening, rfl, hcondition⟩
  · have hmends : Mends line (fun fuel => fromCondition fuel keyword) 10 NoElse [] :=
      mends_fromCondition (mends_nil line .expression)
    exact hmends.fill_cons .leftParen (Nat.le_refl _) fun fuel' more =>
      result_ifStatement_opening rfl more
  rw [List.length_cons] at hfuel
  suffices hmends : Mends line (fun fuel => fromCondition fuel keyword) 10 NoElse mid from
    hmends.step [opening] (Nat.le_refl _) fun fuel' _ more =>
      result_ifStatement_opening (List.mem_singleton.1 hopening) _
  rcases spent_of_expect_error hcondition hblamed with
    hspent | ⟨condition, closing, mid', hclosing, hread, hconsequence⟩
  · exact mends_fromCondition (mends_expression (by omega) hspent)
  · have hread' : (ExprCategory.expression.parser fuel mid).result =
        .ok (condition, closing :: mid') := hread
    obtain ⟨w, -, rfl, hreread⟩ := exists_reread hread'
    simp only [List.length_append, List.length_cons] at hfuel
    have hmends := mends_consequence h (by omega) hconsequence hblamed
    rw [← List.singleton_append, ← List.append_assoc]
    refine hmends.step _ (by omega) fun fuel' hfuel' more => ?_
    simp only [List.length_append, List.length_singleton] at hfuel'
    have hstop : ExprCategory.expression.Follows (closing :: (mid' ++ more)) :=
      StmtTree.not_starts_of_kind hclosing (by decide)
    have hagain : (expression fuel' (w ++ closing :: (mid' ++ more))).result =
        .ok (condition, closing :: (mid' ++ more)) :=
      hreread fuel' (by simp only [ExprCategory.slack]; omega) _ hstop
    rw [List.append_assoc, List.singleton_append, fromCondition, result_bind_of_ok hagain,
      result_bind_of_ok (result_expect_cons (List.mem_singleton.1 hclosing))]

lemma mendable_statement {fuel : Nat} (h : Mendable line (statement .failFast) 5 NoElse fuel)
    (hbody : Mendable line (declarations .failFast [.sign .rightBrace]) 7
      (Closed [.sign .rightBrace]) fuel) :
    Mendable line (statement .failFast) 5 NoElse (fuel + 1) := by
  refine mendable_of_error mends_statement_nil (fun ts s hs fuel' hfuel' rest hrest => ?_)
    fun ts f hts hfuel hf hblamed => ?_
  · obtain ⟨w, rfl, hreread⟩ := exists_reread_statement hs
    rw [List.append_nil] at hfuel' ⊢
    exact hreread (by omega) fun hstarts => absurd hstarts hrest
  refine Mends.succ hts ?_
  rw [statement, result_traced, result_accept?_bind_eq] at hf
  rcases hf with ⟨hif, hf⟩ | ⟨keyword, mid, hkeyword, rfl, hf⟩
  swap
  · rw [List.length_cons] at hfuel
    refine (mends_ifStatement h (by omega) hf hblamed).step [keyword] (Nat.le_refl _)
      fun fuel' _ more => ?_
    rw [List.singleton_append, statement, result_traced,
      result_bind_of_ok (result_accept?_cons hkeyword)]
  rw [result_accept?_bind_eq] at hf
  rcases hf with ⟨hprint, hf⟩ | ⟨keyword, mid, hkeyword, rfl, hf⟩
  swap
  · rw [List.length_cons] at hfuel
    refine (mends_printStatement (by omega) hf hblamed).step [keyword] (Nat.le_refl _)
      fun fuel' _ more => ?_
    have hif' : ¬ Starts [.keyword .ifWord] (keyword :: (mid ++ more)) :=
      StmtTree.not_starts_of_kind hkeyword (by decide)
    rw [List.singleton_append, statement, result_traced,
      result_bind_of_ok (result_accept?_of_not_starts hif'),
      result_bind_of_ok (result_accept?_cons hkeyword)]
  rw [result_accept?_bind_eq] at hf
  rcases hf with ⟨hblock, hf⟩ | ⟨brace, mid, hbrace, rfl, hf⟩
  swap
  · rw [List.length_cons] at hfuel
    refine (mends_blockStatement hbody (by omega) hf hblamed).step [brace] (Nat.le_refl _)
      fun fuel' _ more => ?_
    have hif' : ¬ Starts [.keyword .ifWord] (brace :: (mid ++ more)) :=
      StmtTree.not_starts_of_kind hbrace (by decide)
    have hprint' : ¬ Starts [.keyword .printWord] (brace :: (mid ++ more)) :=
      StmtTree.not_starts_of_kind hbrace (by decide)
    rw [List.singleton_append, statement, result_traced,
      result_bind_of_ok (result_accept?_of_not_starts hif'),
      result_bind_of_ok (result_accept?_of_not_starts hprint'),
      result_bind_of_ok (result_accept?_cons hbrace)]
  refine (mends_expressionStatement (by omega) hf hblamed).step [] (Nat.le_refl _)
    fun fuel' _ more => ?_
  have hstart : ∀ kinds, ¬ Starts kinds ts → ¬ Starts kinds (ts ++ more) :=
    fun kinds hkinds => by rwa [starts_append_of_ne_nil hts]
  rw [List.nil_append, statement, result_traced,
    result_bind_of_ok (result_accept?_of_not_starts (hstart _ hif)),
    result_bind_of_ok (result_accept?_of_not_starts (hstart _ hprint)),
    result_bind_of_ok (result_accept?_of_not_starts (hstart _ hblock))]

/-! ### Declarations -/

lemma Mends.recovering {p : Nat → Parser Stmt} {slack : Nat} {Follows : List Token → Prop}
    {ts : List Token} (h : Mends line p slack Follows ts) :
    Mends line (fun fuel => Grammar.recovering .failFast (p fuel)) slack Follows ts := by
  obtain ⟨fillers, hfillers⟩ := h
  refine ⟨fillers, fun fuel hfuel rest hrest => ?_⟩
  rcases hfillers hfuel hrest with ⟨s, hs⟩ | ⟨f, hf, hcause⟩
  · exact .inl ⟨some s, result_recovering_failFast.2 ⟨s, rfl, hs⟩⟩
  · exact .inr ⟨f, result_recovering_failFast_eq_error.2 hf, hcause⟩

/-- The rest of a variable declaration, after its name. -/
def afterName (fuel : Nat) (keyword name : Token) : Parser Stmt := do
  match ← accept? [.sign .equal] with
  | some _ =>
    let initial ← expression fuel
    let _ ← expect (.sign .semicolon) .semicolonAfterVariable
    pure (.var keyword name (some initial))
  | none =>
    let _ ← expect (.sign .semicolon) .semicolonAfterVariable
    pure (.var keyword name none)

lemma result_varDeclaration_name {fuel : Nat} {keyword name : Token}
    (hname : name.kind = .identifier) (ts : List Token) :
    (varDeclaration fuel keyword (name :: ts)).result =
      (afterName fuel keyword name ts).result := by
  rw [varDeclaration, result_traced, result_bind_of_ok (result_expect_cons hname)]
  rfl

/-- After its name, a variable declaration can end with a semicolon. -/
lemma mends_afterName_nil (keyword name : Token) :
    Mends line (fun fuel => afterName fuel keyword name) 8 NoElse [] := by
  refine ⟨[.semicolon], fun fuel _ rest _ => ?_⟩
  have hequal : ¬ Starts [.sign .equal] (Filler.semicolon.token line :: rest) :=
    StmtTree.not_starts_of_kind (Filler.semicolon.word line).2 (by decide)
  unfold afterName
  rw [List.nil_append, fill_cons_append, fill_nil_append,
    result_bind_of_ok (result_accept?_of_not_starts hequal)]
  exact passes_expect (x := .semicolon) rfl (passes_ok _ rest)

lemma mends_afterName {fuel : Nat} {keyword name : Token} {ts : List Token} {f : Failure}
    (hfuel : 3 * ts.length ≤ fuel)
    (hf : (afterName fuel keyword name ts).result = .error f) (hblamed : f.blamed = []) :
    Mends line (fun fuel => afterName fuel keyword name) 8 NoElse ts := by
  rw [afterName, result_accept?_bind_eq] at hf
  rcases hf with ⟨-, hf⟩ | ⟨equal, mid, hequal, rfl, hf⟩
  · rcases eq_nil_of_result_expect hf hblamed with rfl | ⟨t, mid, -, rfl, hpure⟩
    · exact mends_afterName_nil keyword name
    · cases hpure
  rw [List.length_cons] at hfuel
  rcases spent_of_expect_error hf hblamed with hspent | ⟨e, t, mid', -, -, hpure⟩
  swap
  · cases hpure
  have hinitial : Mends line (fun fuel => do
      let initial ← expression fuel
      let _ ← expect (.sign .semicolon) .semicolonAfterVariable
      pure (Stmt.var keyword name (some initial))) 8 NoElse mid :=
    mends_expression_semicolon (mends_expression (by omega) hspent)
      fun fuel e t rest => passes_ok _ rest
  refine hinitial.step [equal] (by simp) fun fuel' _ more => ?_
  rw [List.singleton_append, afterName, result_bind_of_ok (result_accept?_cons hequal)]

lemma mends_varDeclaration {fuel : Nat} {keyword : Token} {ts : List Token} {f : Failure}
    (hfuel : 3 * ts.length ≤ fuel)
    (hf : (varDeclaration fuel keyword ts).result = .error f) (hblamed : f.blamed = []) :
    Mends line (fun fuel => varDeclaration fuel keyword) 8 NoElse ts := by
  rw [varDeclaration, result_traced] at hf
  rcases eq_nil_of_result_expect hf hblamed with rfl | ⟨name, mid, hname, rfl, hafter⟩
  · exact (mends_afterName_nil keyword (Filler.name.token line)).fill_cons .name (by simp)
      fun fuel' more => result_varDeclaration_name rfl more
  · rw [List.length_cons] at hfuel
    exact (mends_afterName (by omega) hafter hblamed).step [name] (by simp) fun fuel' _ more =>
      result_varDeclaration_name (List.mem_singleton.1 hname) _

/-- Where nothing has been read, a statement is a declaration. -/
lemma mends_declaration_nil : Mends line (declaration .failFast) 6 NoElse [] := by
  refine ⟨[.name, .semicolon], fun fuel hfuel rest _ => ?_⟩
  have hfuel' : 3 * 2 + 1 ≤ fuel := by
    simp only [List.length_cons, List.length_nil] at hfuel
    omega
  have hsettled : (StmtTree.ofStatement (fillerStatement line)).Settled rest := trivial
  exact .inl ⟨_, (StmtTree.ofStatement (fillerStatement line)).reads hfuel' hsettled⟩

lemma mendable_declaration {fuel : Nat} (h : Mendable line (statement .failFast) 5 NoElse fuel) :
    Mendable line (declaration .failFast) 6 NoElse (fuel + 1) := by
  refine mendable_of_error mends_declaration_nil (fun ts s hs fuel' hfuel' rest hrest => ?_)
    fun ts f hts hfuel hf hblamed => ?_
  · obtain ⟨w, -, rfl, hreread⟩ := exists_reread_declaration hs
    rw [List.append_nil] at hfuel' ⊢
    exact hreread (by omega) fun hstarts => absurd hstarts hrest
  refine Mends.succ hts ?_
  suffices hmends : Mends line (fun fuel => do
      match ← accept? [.keyword .varWord] with
      | some keyword => varDeclaration fuel keyword
      | none => statement .failFast fuel) 5 NoElse ts from
    hmends.recovering.step [] (Nat.le_refl _) fun fuel' _ more => by
      unfold declaration
      rfl
  rw [declaration, result_traced, result_recovering_failFast_eq_error,
    result_accept?_bind_eq] at hf
  rcases hf with ⟨hvar, hf⟩ | ⟨keyword, mid, hkeyword, rfl, hf⟩
  · have hstatement := h (by omega) (.inr ⟨f, hf, hblamed⟩)
    refine hstatement.step [] (Nat.le_refl _) fun fuel' _ more => ?_
    have hvar' : ¬ Starts [.keyword .varWord] (ts ++ more) := by
      rwa [starts_append_of_ne_nil hts]
    rw [List.nil_append, result_bind_of_ok (result_accept?_of_not_starts hvar')]
  · rw [List.length_cons] at hfuel
    refine (mends_varDeclaration (by omega) hf hblamed).step [keyword] (Nat.le_refl _)
      fun fuel' _ more => ?_
    rw [List.singleton_append, result_bind_of_ok (result_accept?_cons hkeyword)]

section Declarations

variable {closing : List Kind} (hclosing : closing ⊆ [.sign .rightBrace])

include hclosing

/-- Declarations can end wherever a text ends or is closed. -/
lemma passes_declarations_of_closed {fuel : Nat} (hfuel : 2 ≤ fuel) {rest : List Token}
    (hrest : Closed closing rest) :
    Passes (declarations .failFast closing fuel rest).result rest :=
  .inl ⟨[], StmtTree.nothing.reads hfuel hclosing hrest trivial⟩

lemma mendable_declarations {fuel : Nat}
    (hdeclaration : Mendable line (declaration .failFast) 6 NoElse fuel)
    (h : Mendable line (declarations .failFast closing) 7 (Closed closing) fuel) :
    Mendable line (declarations .failFast closing) 7 (Closed closing) (fuel + 1) := by
  refine mendable_of_error
    ⟨[], fun fuel' hfuel' rest hrest => passes_declarations_of_closed hclosing (by omega) hrest⟩
    (fun ts v hv fuel' hfuel' rest hrest => ?_) fun ts f hts hfuel hf hblamed => ?_
  · obtain ⟨D, rfl, rfl, hsettled⟩ := (statement_declarations_sound (fuel + 1)).2.2 closing hv
    rw [List.append_nil] at hfuel' ⊢
    exact D.reads (by omega) hclosing hrest
      (hsettled.replace fun hstarts => absurd hstarts (hrest.noElse hclosing))
  refine Mends.succ hts ?_
  obtain ⟨next, ts, rfl⟩ := List.exists_cons_of_ne_nil hts
  rw [declarations, result_bind_of_ok result_unread] at hf
  by_cases hnext : next.kind ∈ closing
  · simp only [hnext, if_true] at hf
    cases hf
  simp only [hnext, if_false] at hf
  suffices hmends : Mends line (fun fuel => do
      let first ← declaration .failFast fuel
      let others ← declarations .failFast closing fuel
      pure (first.toList ++ others)) 6 (Closed closing) (next :: ts) from by
    refine hmends.step [] (Nat.le_refl _) fun fuel' _ more => ?_
    rw [List.nil_append, declarations, result_bind_of_ok result_unread]
    simp only [List.cons_append, hnext, if_false]
  rcases result_bind_eq_error.1 hf with herror | ⟨first, mid, hfirst, hf⟩
  · have hmends := hdeclaration (by omega) (.inr ⟨f, herror, hblamed⟩)
    refine hmends.bind [] (Nat.le_refl _) (fun rest hrest => hrest.noElse hclosing)
      fun fuel' hfuel' rest hrest first => ?_
    simp only [List.length_nil] at hfuel'
    exact (passes_declarations_of_closed hclosing (by omega) hrest).bind fun others =>
      passes_ok _ rest
  · -- The first declaration is read again, since the others begin as before.
    obtain ⟨w, hw, hsplit, hreread⟩ := exists_reread_declaration hfirst
    have hspent : Spent (declarations .failFast closing fuel mid).result := by
      rcases result_bind_eq_error.1 hf with herror | ⟨others, mid', -, hpure⟩
      · exact .inr ⟨f, herror, hblamed⟩
      · cases hpure
    have hmid : mid ≠ [] := by
      rintro rfl
      cases fuel <;> cases hf
    have hwpos := List.length_pos_iff.2 hw
    rw [hsplit, List.length_append] at hfuel
    have hothers : Mends line (fun fuel => do
        let others ← declarations .failFast closing fuel
        pure (first.toList ++ others)) 7 (Closed closing) mid :=
      (h (by omega) hspent).bind [] (Nat.le_refl _) (fun rest hrest => hrest)
        fun fuel' _ rest _ others => passes_ok _ rest
    rw [hsplit]
    refine hothers.step w (by omega) fun fuel' hfuel' more => ?_
    have hread : (declaration .failFast fuel' (w ++ (mid ++ more))).result =
        .ok (first, mid ++ more) :=
      hreread (by omega) (starts_append_of_ne_nil hmid).1
    exact result_bind_of_ok hread

end Declarations

/-- Statements and declarations can be completed. -/
lemma mendable_statement_declaration_declarations (line : Int) (fuel : Nat) :
    Mendable line (statement .failFast) 5 NoElse fuel ∧
      Mendable line (declaration .failFast) 6 NoElse fuel ∧
        ∀ closing, closing ⊆ [.sign .rightBrace] →
          Mendable line (declarations .failFast closing) 7 (Closed closing) fuel := by
  induction fuel with
  | zero =>
    refine ⟨fun ts hfuel => ?_, fun ts hfuel => ?_, fun closing _ ts hfuel => ?_⟩ <;> omega
  | succ fuel ih =>
    obtain ⟨hstatement, hdeclaration, hdeclarations⟩ := ih
    exact ⟨mendable_statement hstatement (hdeclarations _ (List.Subset.refl _)),
      mendable_declaration hstatement,
      fun closing hclosing =>
        mendable_declarations hclosing hdeclaration (hdeclarations closing hclosing)⟩

/-- A text that is read to its end, but is no program yet, can be completed. -/
lemma exists_fillers_of_spent (line : Int) {ts : List Token}
    (h : Spent (program .failFast ts).result) :
    ∃ fillers, Passes (program .failFast (ts ++ fill line fillers)).result [] := by
  have hmendable := (mendable_statement_declaration_declarations line (fuelFor ts.length)).2.2 []
    (List.nil_subset _)
  have hfuel : 3 * ts.length + 7 ≤ fuelFor ts.length + 1 := by
    unfold fuelFor
    omega
  obtain ⟨fillers, hfillers⟩ := hmendable hfuel h
  refine ⟨fillers, ?_⟩
  have hfuel' : 3 * (ts.length + fillers.length) + 7 ≤
      fuelFor (ts ++ fill line fillers).length + 1 := by
    simp only [fuelFor, fill, List.length_append, List.length_map]
    omega
  have hpass := hfillers hfuel' (.inl rfl)
  rwa [List.append_nil] at hpass

end LoxScript.Grammar
