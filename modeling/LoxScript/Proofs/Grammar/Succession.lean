import LoxScript.Proofs.Grammar.MistakeOrder

/-!
# Programs one after the other

The tokens of a program are followed by further tokens.  As long as these do not start with `else`,
no declaration of the program takes any of them: they are read as if the program had not been there.
Its statements come first, and what is wrong with the further tokens is what is wrong with them when
they are read alone.

Each declaration of the program takes its own tokens and finds no mistake in them, in either mode.
That is the step; the program is then passed declaration by declaration.
-/

namespace LoxScript

/-- The mistake, when so many more tokens stand before it. -/
def SyntaxError.after (k : Nat) (e : SyntaxError) : SyntaxError :=
  { e with position := k + e.position }

/-- The mistakes of a script, when so many more tokens stand before it. -/
def Rejection.after (k : Nat) : Rejection → Rejection
  | lexical e => lexical e
  | first e => first (e.after k)
  | every errors => every (errors.map (SyntaxError.after k))

namespace Grammar

open LoxScript.Parser

/-! ### Passing declarations -/

section Passing

variable (mode : Mode) {rest : List Token}

/-- After a declaration, the others are read from what it has left. -/
lemma program_cons {D : StmtTree .declaration} (h : D.Settled rest) :
    (program mode (D.tokens ++ rest)).overcome = (program mode rest).overcome ∧
      (program mode (D.tokens ++ rest)).result =
        (program mode rest).result.map (Prod.map (D.value :: ·) id) := by
  have hne : D.tokens ≠ [] := D.tokens_ne_nil rfl
  have hpos := List.length_pos_of_ne_nil hne
  have hlength : (D.tokens ++ rest).length = D.tokens.length + rest.length := List.length_append
  -- The first token pays for the step, so the bound is enough for the rest.
  have hwhole : program mode (D.tokens ++ rest) =
      someDeclarations mode [] (3 * (D.tokens ++ rest).length + 5) (D.tokens ++ rest) := by
    rw [program_eq_declarations mode (Nat.le_refl _)]
    obtain ⟨t, ts, hts⟩ := List.exists_cons_of_ne_nil hne
    rw [hts]
    exact declarations_cons List.not_mem_nil
  have hothers : declarations mode [] (3 * (D.tokens ++ rest).length + 5) rest =
      program mode rest := (program_eq_declarations mode (by omega)).symm
  obtain ⟨hnil, hfirst⟩ := declaration_of_settled mode h
    (show 3 * D.tokens.length + 1 ≤ 3 * (D.tokens ++ rest).length + 5 by omega)
  rw [hwhole]
  constructor
  · rw [overcome_someDeclarations hfirst, hnil, hothers, List.nil_append]
  · rw [someDeclarations, result_bind_of_ok hfirst, result_bind_pure, hothers]
    rfl

/-- After the declarations of a program, what follows is read as it is alone. -/
lemma program_append (mode : Mode) {rest : List Token} {B : StmtTree .declarations}
    (h : B.Settled rest) :
    (program mode (B.tokens ++ rest)).overcome = (program mode rest).overcome ∧
      (program mode (B.tokens ++ rest)).result =
        (program mode rest).result.map (Prod.map ((B.value : List Stmt) ++ ·) id) := by
  match B with
  | .nothing =>
    refine ⟨rfl, ?_⟩
    rw [StmtTree.tokens, List.nil_append]
    cases (program mode rest).result <;> rfl
  | .more first others =>
    obtain ⟨hfirst, hothers⟩ := h
    obtain ⟨hovercome, hresult⟩ := program_append mode hothers
    obtain ⟨hovercome', hresult'⟩ := program_cons mode hfirst
    rw [StmtTree.tokens, List.append_assoc, hovercome', hresult', hovercome, hresult]
    refine ⟨rfl, ?_⟩
    cases (program mode rest).result <;> rfl

end Passing

/-- Settled declarations are read back in either mode, when nothing else comes before the end of
input. -/
lemma result_readTokens_of_settled (mode : Mode) {tokens : List Token}
    {B : StmtTree .declarations} (hbody : body tokens = B.tokens) (h : B.Settled []) :
    (readTokens mode tokens).result = .ok B.value := by
  obtain ⟨hovercome, hresult⟩ := program_append mode h
  have hnothing : (program mode []).overcome = [] ∧
      (program mode []).result = .ok (([] : List Stmt), []) := by
    cases mode <;> exact ⟨rfl, rfl⟩
  rw [List.append_nil] at hovercome hresult
  rw [hnothing.1] at hovercome
  rw [hnothing.2] at hresult
  unfold readTokens
  dsimp only
  rw [hbody, hovercome, hresult]
  exact congrArg Except.ok (List.append_nil _)

/-! ### Mistakes further on -/

/-- A mistake at the end of a longer text is the same, with more tokens before it. -/
lemma ofFailure_add {n : Nat} {f : Failure} (h : f.blamed.length ≤ n) (k : Nat) (last : Token) :
    SyntaxError.ofFailure (k + n) last f = (SyntaxError.ofFailure n last f).after k := by
  simp only [SyntaxError.ofFailure, SyntaxError.after, SyntaxError.mk.injEq, true_and]
  omega

/-- In either mode, what is blamed in a program is a part of it. -/
lemma blamed_suffix_program (mode : Mode) (ts : List Token) :
    (∀ f, (program mode ts).result = .error f → f.blamed <:+ ts) ∧
      ∀ f ∈ (program mode ts).overcome, f.blamed <:+ ts := by
  cases mode with
  | failFast =>
    refine ⟨fun f hf => (program_failure hf).1, fun f hf => ?_⟩
    rw [(program_agrees ts).overcome_eq] at hf
    exact absurd hf List.not_mem_nil
  | recovering =>
    refine ⟨fun f hf => ?_, fun f hf => (inOrder_program ts).blamed_suffix hf⟩
    obtain ⟨p, hp⟩ := exists_result_program_recovering ts
    rw [hp] at hf
    cases hf

/-! ### Whole texts -/

section Whole

variable {ts : List Token}

lemma body_append_stop (h : ∀ t ∈ ts, t.kind ≠ .endOfInput) {last : Token}
    (hlast : last.kind = .endOfInput) :
    body (ts ++ [last]) = ts ∧ stop (ts ++ [last]) = last := by
  constructor
  · rw [body_append_of_forall_ne h, body_eq_nil (by simpa using hlast), List.append_nil]
  · have hnone : ts.find? (·.kind = .endOfInput) = none :=
      List.find?_eq_none.2 fun t ht => by simpa using h t ht
    rw [stop, List.find?_append, hnone, Option.none_or,
      List.find?_cons_of_pos (by simpa using hlast)]

/-- The tokens of a program are those of declarations, which are settled before any text that does
not start with `else`. -/
lemma exists_settled_of_accepted (h : ∀ t ∈ ts, t.kind ≠ .endOfInput) {p : Program}
    (hread : (readTokens .failFast ts).result = .ok p) {rest : List Token}
    (hrest : ¬ Starts [.keyword .elseWord] rest) :
    ∃ B : StmtTree .declarations, B.tokens = ts ∧ B.value = p ∧ B.Settled rest := by
  rw [result_readTokens_failFast_eq_ok, body_of_forall_ne h] at hread
  obtain ⟨B, hvalue, htokens, hsettled⟩ := (statement_declarations_sound _).2.2 [] hread
  rw [List.append_nil] at htokens
  exact ⟨B, htokens.symm, hvalue, hsettled.replace fun hstart => absurd hstart hrest⟩

end Whole

/-- Reading is compositional over sequences of statements.  When the tokens `first` are a program
and those after them do not start with `else`, the whole is read like the tokens after them alone,
with the end of input on the same line: in either mode, the statements of the first program are
followed by those of the second, or the mistakes are those of the second, the very same ones but for
the number of tokens before them. -/
theorem reading_composes_over_programs (mode : Mode) (first second tail : List Token) (p : Program)
    (hfirst : ∀ t ∈ first, t.kind ≠ .endOfInput) (hsecond : ∀ t ∈ second, t.kind ≠ .endOfInput)
    (htail : ∀ t ∈ tail.head?, t.kind = .endOfInput)
    (haccepted : (readTokens .failFast first).result = .ok p)
    (helse : ¬ Starts [.keyword .elseWord] second) :
    (readTokens mode (first ++ second ++ tail)).result =
      match (readTokens mode (second ++ [stop (first ++ second ++ tail)])).result with
      | .ok q => .ok (p ++ q)
      | .error r => .error (r.after first.length) := by
  obtain ⟨B, rfl, rfl, hsettled⟩ := exists_settled_of_accepted hfirst haccepted helse
  obtain ⟨hovercome, hresult⟩ := program_append mode hsettled
  obtain ⟨hfailed, hpassed⟩ := blamed_suffix_program mode second
  have hbody : body (B.tokens ++ second ++ tail) = B.tokens ++ second := by
    rw [body_append_of_forall_ne (List.forall_mem_append.2 ⟨hfirst, hsecond⟩), body_eq_nil htail,
      List.append_nil]
  obtain ⟨hbody', hstop'⟩ := body_append_stop hsecond (kind_stop (B.tokens ++ second ++ tail))
  -- Both readings work on what is left after the first program, and they go different ways only in
  -- the number of tokens that stand before a mistake.
  have hmoved : ∀ f : Failure, f.blamed <:+ second → ∀ last,
      SyntaxError.ofFailure (B.tokens ++ second).length last f =
        (SyntaxError.ofFailure second.length last f).after B.tokens.length := by
    intro f hf last
    rw [List.length_append]
    exact ofFailure_add hf.length_le _ last
  unfold readTokens
  dsimp only
  rw [hbody, hbody', hstop', hovercome, hresult]
  cases hlater : (program mode second).result with
  | error f =>
    refine congrArg (fun e => Except.error (Rejection.first e)) ?_
    exact hmoved f (hfailed f hlater) _
  | ok r =>
    cases hmistakes : (program mode second).overcome with
    | nil => rfl
    | cons f fs =>
      rw [hmistakes] at hpassed
      refine congrArg (fun es => Except.error (Rejection.every es)) ?_
      rw [List.map_map]
      exact List.map_congr_left fun g hg => hmoved g (hpassed g hg) _

/-- After `if (x) x;`, which could still have an `else`, the broken block `{ x = ; print }` is read
in either mode as it is alone. -/
theorem reading_composes_over_programs_broken_block :
    let tokens : List Kind → List Token := fun kinds =>
      kinds.map fun kind => ⟨kind, utf8 "x", .nil, 1⟩
    let first := tokens [.keyword .ifWord, .sign .leftParen, .identifier, .sign .rightParen,
      .identifier, .sign .semicolon]
    let second := tokens [.sign .leftBrace, .identifier, .sign .equal, .sign .semicolon,
      .keyword .printWord, .sign .rightBrace]
    (∃ p, (readTokens .failFast first).result = .ok p) ∧
      (readTokens .failFast (first ++ second)).result =
        .error (.first ⟨.expected .expression, ⟨.sign .semicolon, utf8 "x", .nil, 1⟩, 9⟩) ∧
      (readTokens .recovering (first ++ second)).result =
        .error (.every [⟨.expected .expression, ⟨.sign .semicolon, utf8 "x", .nil, 1⟩, 9⟩,
          ⟨.expected .expression, ⟨.sign .rightBrace, utf8 "x", .nil, 1⟩, 11⟩,
          ⟨.expected .braceAfterBlock, Token.atEnd 1, 12⟩]) := by
  intro tokens first second
  obtain ⟨p, hp⟩ : ∃ p, (readTokens .failFast first).result = .ok p := ⟨_, rfl⟩
  have hcomposes := fun mode => reading_composes_over_programs mode first second [] p (by decide)
    (by decide) (by simp) hp (by decide)
  rw [List.append_nil] at hcomposes
  refine ⟨⟨p, hp⟩, ?_, ?_⟩
  · rw [hcomposes]
    rfl
  · rw [hcomposes]
    rfl

end Grammar

end LoxScript
