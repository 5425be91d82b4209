import LoxScript.Proofs.Grammar.Resumption

/-!
# The order and the number of mistakes

The mistakes of a program are listed in the order of its text.  No token is blamed twice, and once
the end of the text is to blame, it is to blame for all that is still open.

Every mistake costs a token.  A declaration that is given up before a token skips that token.  One
that is given up at the end of the text has taken a token that nothing inside it has paid with.  So
there are no more mistakes than tokens.
-/

namespace LoxScript.Grammar

open LoxScript.Parser

/-! ### One after the other -/

section InOrder

variable {ts rest : List Token} {f g : Failure} {fs : List Failure}

lemma InOrder.blamed_suffix (h : InOrder ts fs rest) (hf : f ∈ fs) : f.blamed <:+ ts := by
  induction fs generalizing ts with
  | nil => exact absurd hf List.not_mem_nil
  | cons g fs ih =>
    obtain ⟨hblamed, hunread, hothers⟩ := h
    rcases List.mem_cons.1 hf with rfl | hlater
    · exact hblamed
    · exact (ih hothers hlater).trans ((resync_suffix _).trans (hunread.trans hblamed))

/-- After each failure, a later one is blamed on a part of what is left when reading is resumed. -/
lemma InOrder.pairwise (h : InOrder ts fs rest) :
    fs.Pairwise fun f g => f.unread <:+ f.blamed ∧ g.blamed <:+ resync f.unread := by
  induction fs generalizing ts with
  | nil => exact List.Pairwise.nil
  | cons f fs ih =>
    obtain ⟨-, hunread, hothers⟩ := h
    exact List.pairwise_cons.2 ⟨fun g hg => ⟨hunread, hothers.blamed_suffix hg⟩, ih hothers⟩

/-- A later failure is blamed on less, unless nothing is left to blame. -/
lemma length_blamed_lt_or_eq_nil (hunread : f.unread <:+ f.blamed)
    (hlater : g.blamed <:+ resync f.unread) :
    g.blamed.length < f.blamed.length ∨ f.blamed = [] ∧ g.blamed = [] := by
  cases hf : f.unread with
  | nil =>
    rw [hf] at hlater
    have hg : g.blamed = [] := List.suffix_nil.1 hlater
    by_cases hnil : f.blamed = []
    · exact .inr ⟨hnil, hg⟩
    · rw [hg]
      exact .inl (List.length_pos_of_ne_nil hnil)
  | cons t ts =>
    rw [hf] at hlater hunread
    have hshorter := (hlater.trans (resync_cons_suffix t ts)).length_le
    have hlonger := hunread.length_le
    rw [List.length_cons] at hlonger
    omega

end InOrder

/-! ### The token to blame -/

section Position

variable {tokens : List Token} {f : Failure}

/-- The end is to blame exactly when no token is. -/
lemma isAtEnd_ofFailure (h : f.blamed <:+ body tokens) :
    (SyntaxError.ofFailure (body tokens).length (stop tokens) f).isAtEnd = true ↔
      f.blamed = [] := by
  cases hblamed : f.blamed with
  | nil => simp [SyntaxError.isAtEnd, SyntaxError.ofFailure, hblamed, kind_stop]
  | cons t ts =>
    have ht : t ∈ body tokens := h.subset (hblamed ▸ List.mem_cons_self)
    simpa [SyntaxError.isAtEnd, SyntaxError.ofFailure, hblamed] using kind_ne_of_mem_body ht

/-- The token to blame stands where the mistake says. -/
lemma getElem?_position_ofFailure (h : f.blamed <:+ body tokens) :
    (sentence tokens)[(SyntaxError.ofFailure (body tokens).length (stop tokens) f).position]? =
      some (SyntaxError.ofFailure (body tokens).length (stop tokens) f).token := by
  obtain ⟨before, hbefore⟩ := h
  rw [sentence, ← hbefore]
  cases hblamed : f.blamed with
  | nil => simp [SyntaxError.ofFailure, hblamed]
  | cons t ts => simp [SyntaxError.ofFailure, hblamed]

end Position

/-! ### The price of a mistake -/

/-- What has been overcome in a text has been paid for with tokens. -/
def Paid {α : Type} (ts : List Token) (r : Reply α) : Prop :=
  r.overcome.length + (left r).length ≤ ts.length

/-- What the parser overcomes, it pays for. -/
def Frugal {α : Type} (p : Parser α) : Prop :=
  ∀ ts, Paid ts (p ts)

/-- What the parser overcomes, if anything, it pays for, and it takes a token besides. -/
def Thrifty {α : Type} (p : Parser α) : Prop :=
  ∀ ts, (p ts).overcome = [] ∨ (p ts).overcome.length + (left (p ts)).length < ts.length

section Price

variable {α β : Type} {p : Parser α} {g : α → Parser β} {ts : List Token}

lemma Paid.of_overcome_eq_nil {r : Reply α} (hleft : left r <:+ ts) (h : r.overcome = []) :
    Paid ts r := by
  rw [Paid, h, List.length_nil, Nat.zero_add]
  exact hleft.length_le

lemma Frugal.of_overcome_eq_nil (hnarrows : Narrows p) (h : ∀ ts, (p ts).overcome = []) :
    Frugal p :=
  fun ts => .of_overcome_eq_nil (hnarrows ts) (h ts)

lemma Thrifty.frugal (h : Thrifty p) (hnarrows : Narrows p) : Frugal p := by
  intro ts
  rcases h ts with hnil | hlt
  · exact .of_overcome_eq_nil (hnarrows ts) hnil
  · exact Nat.le_of_lt hlt

lemma Paid.bind (hp : Paid ts (p ts)) (hg : ∀ a, Frugal (g a)) : Paid ts ((p >>= g) ts) := by
  unfold Paid at hp ⊢
  cases h : (p ts).result with
  | error f =>
    rw [left_of_error h] at hp
    rw [bind_of_error h]
    exact hp
  | ok r =>
    obtain ⟨a, mid⟩ := r
    have hsecond : (g a mid).overcome.length + (left (g a mid)).length ≤ mid.length := hg a mid
    rw [left_of_ok h] at hp
    rw [left_bind_of_ok h, bind_of_ok h, List.length_append]
    omega

lemma sequential_frugal : Sequential fun {α} (p _ : Parser α) => Frugal p where
  pure a := .of_overcome_eq_nil (compositional_narrows.pure a) fun _ => rfl
  bind hp hg ts := (hp ts).bind hg
  traced _ h := h
  accept? kinds := .of_overcome_eq_nil (narrows_accept? kinds) fun _ => overcome_accept? kinds
  expect kind what :=
    .of_overcome_eq_nil (narrows_expect kind what) fun _ => overcome_expect kind what
  fail what := .of_overcome_eq_nil (compositional_narrows.fail what) fun _ => rfl

lemma frugal_expression (fuel : Nat) : Frugal (expression fuel) :=
  .of_overcome_eq_nil (compositional_narrows.expression fuel) (overcome_expression fuel)

/-- A token that leads to frugal reading is a token taken besides. -/
lemma Thrifty.accept?_bind {kinds : List Kind} {g : Option Token → Parser β}
    (hsome : ∀ t, Frugal (g (some t))) (hnone : Thrifty (g none)) :
    Thrifty (accept? kinds >>= g) := by
  intro ts
  by_cases hstarts : Starts kinds ts
  · obtain ⟨t, rest, rfl, hkind⟩ := hstarts.exists_cons
    have haccept : (accept? kinds (t :: rest)).result = .ok (some t, rest) :=
      result_accept?_cons hkind
    have hrest := hsome t rest
    right
    rw [left_bind_of_ok haccept, bind_of_ok haccept, overcome_accept?, List.nil_append,
      List.length_cons]
    exact Nat.lt_succ_of_le hrest
  · have haccept := result_accept?_of_not_starts hstarts
    rw [left_bind_of_ok haccept, bind_of_ok haccept, overcome_accept?, List.nil_append]
    exact hnone ts

end Price

/-- A statement takes the token that opens it before anything inside it can be overcome. -/
lemma thrifty_statement_succ {fuel : Nat} (hstatement : Frugal (statement .recovering fuel))
    (hdeclarations : Frugal (declarations .recovering [.sign .rightBrace] fuel)) :
    Thrifty (statement .recovering (fuel + 1)) := by
  have hif : ∀ keyword, Frugal (ifStatement (statement .recovering fuel) fuel keyword) :=
    sequential_frugal.phrasal.ifStatement (frugal_expression fuel)
      (q := statement .recovering fuel) hstatement
  have hprint : ∀ keyword, Frugal (printStatement fuel keyword) :=
    sequential_frugal.phrasal.printStatement (frugal_expression fuel)
  have hblock : ∀ brace,
      Frugal (blockStatement (declarations .recovering [.sign .rightBrace] fuel) brace) :=
    sequential_frugal.blockStatement
      (q := declarations .recovering [.sign .rightBrace] fuel) hdeclarations
  have hexpression : Thrifty (expressionStatement fuel) := by
    intro ts
    have hagrees := compositional_agrees.sequential.phrasal.expressionStatement
      compositional_agrees.unread (compositional_agrees.expression fuel) ts
    exact .inl hagrees.overcome_eq
  intro ts
  exact Thrifty.accept?_bind hif (.accept?_bind hprint (.accept?_bind hblock hexpression)) ts

/-- A declaration that is given up costs the token it stops at, or the first one. -/
lemma frugal_declaration_succ {fuel : Nat} (hstatement : Thrifty (statement .recovering fuel))
    (t : Token) (ts : List Token) :
    Paid (t :: ts) (declaration .recovering (fuel + 1) (t :: ts)) := by
  have hvar : ∀ keyword, Frugal (varDeclaration fuel keyword) :=
    sequential_frugal.phrasal.varDeclaration (frugal_expression fuel)
  have hattempt : Thrifty (attempt .recovering fuel) := Thrifty.accept?_bind hvar hstatement
  have hnarrows : Narrows (attempt .recovering fuel) :=
    compositional_narrows.sequential.phrasal.attempt .recovering .recovering
      (compositional_narrows.expression fuel)
      (narrows_statement_declaration_declarations .recovering fuel).1
  have hfrugal := hattempt.frugal hnarrows (t :: ts)
  unfold Paid at hfrugal ⊢
  rw [declaration_succ]
  cases hresult : (attempt .recovering fuel (t :: ts)).result with
  | ok r =>
    obtain ⟨s, rest⟩ := r
    have hskip : recovering .recovering (attempt .recovering fuel) (t :: ts) = _ :=
      recovering_of_ok hresult
    rw [left_of_ok hresult] at hfrugal
    rw [left_of_ok (by rw [result_traced, hskip]), traced, hskip]
    exact hfrugal
  | error f =>
    have hskip := recovering_of_error hresult
    rw [left_of_error hresult] at hfrugal
    rw [left_of_ok (by rw [result_traced, hskip]), traced, hskip, List.length_append,
      List.length_singleton]
    cases hunread : f.unread with
    | cons u us =>
      have hshorter := (resync_cons_suffix u us).length_le
      rw [hunread, List.length_cons] at hfrugal
      omega
    | nil =>
      rw [resync, List.length_nil]
      rcases hattempt (t :: ts) with hnone | hsome
      · rw [hnone, List.length_nil, List.length_cons]
        omega
      · omega

/-- Declarations are frugal if each of them is, as long as there is a token to read. -/
lemma frugal_declarations_succ {closing : List Kind} {fuel : Nat}
    (hdeclaration : ∀ t ts, Paid (t :: ts) (declaration .recovering fuel (t :: ts)))
    (hdeclarations : Frugal (declarations .recovering closing fuel)) :
    Frugal (declarations .recovering closing (fuel + 1)) := by
  intro ts
  cases ts with
  | nil => exact .of_overcome_eq_nil (List.suffix_refl []) rfl
  | cons t ts =>
    by_cases hclosing : t.kind ∈ closing
    · rw [declarations_of_mem hclosing]
      exact .of_overcome_eq_nil (List.suffix_refl _) rfl
    · rw [declarations_cons hclosing]
      exact (hdeclaration t ts).bind fun first mid =>
        (hdeclarations mid).bind fun others => sequential_frugal.pure _

/-- Reading that goes on after mistakes pays for them. -/
lemma frugal_statement_declaration_declarations (fuel : Nat) :
    Thrifty (statement .recovering fuel) ∧
      (∀ t ts, Paid (t :: ts) (declaration .recovering fuel (t :: ts))) ∧
        ∀ closing, Frugal (declarations .recovering closing fuel) := by
  induction fuel with
  | zero =>
    refine ⟨fun _ => .inl rfl, fun t ts => ?_, fun _ => ?_⟩
    · exact .of_overcome_eq_nil (List.suffix_refl _) rfl
    · exact sequential_frugal.pure _
  | succ fuel ih =>
    obtain ⟨hstatement, hdeclaration, hdeclarations⟩ := ih
    have hnarrows := (narrows_statement_declaration_declarations .recovering fuel).1
    exact ⟨thrifty_statement_succ (hstatement.frugal hnarrows) (hdeclarations _),
      frugal_declaration_succ hstatement,
      fun closing => frugal_declarations_succ hdeclaration (hdeclarations closing)⟩

/-- A program has no more mistakes than tokens. -/
lemma length_overcome_program_le (ts : List Token) :
    (program .recovering ts).overcome.length ≤ ts.length := by
  have hpaid : Paid ts (program .recovering ts) :=
    (frugal_statement_declaration_declarations (fuelFor ts.length)).2.2 [] ts
  exact (Nat.le_add_right _ _).trans hpaid

/-! ### Lists of mistakes -/

/-- The one mistake comes before the other in the text, unless both are at its end. -/
structure Precedes (e e' : SyntaxError) : Prop where
  position_le : e.position ≤ e'.position
  position_lt : e'.isAtEnd = false → e.position < e'.position
  isAtEnd : e.isAtEnd = true → e'.isAtEnd = true

lemma precedes_ofFailure {tokens : List Token} {f g : Failure} (hf : f.blamed <:+ body tokens)
    (hg : g.blamed <:+ body tokens)
    (h : g.blamed.length < f.blamed.length ∨ f.blamed = [] ∧ g.blamed = []) :
    Precedes (.ofFailure (body tokens).length (stop tokens) f)
      (.ofFailure (body tokens).length (stop tokens) g) := by
  have hlength := hf.length_le
  refine ⟨?_, fun hinside => ?_, fun hend => ?_⟩
  · dsimp only [SyntaxError.ofFailure]
    rcases h with hlt | ⟨hfnil, hgnil⟩
    · omega
    · rw [hfnil, hgnil]
  · have hgne : g.blamed ≠ [] := by
      intro hgnil
      rw [(isAtEnd_ofFailure hg).2 hgnil] at hinside
      cases hinside
    have hlt := h.resolve_right fun hboth => hgne hboth.2
    dsimp only [SyntaxError.ofFailure]
    omega
  · have hfnil := (isAtEnd_ofFailure hf).1 hend
    have hgnil : g.blamed = [] := by
      rcases h with hlt | hboth
      · rw [hfnil] at hlt
        exact absurd hlt (Nat.not_lt_zero _)
      · exact hboth.2
    exact (isAtEnd_ofFailure hg).2 hgnil

section Mistakes

variable {tokens : List Token} {errors : List SyntaxError}

lemma pairwise_precedes (h : (readTokens .recovering tokens).result = .error (.every errors)) :
    errors.Pairwise Precedes := by
  obtain ⟨-, hevery⟩ := result_readTokens_recovering_eq_error.1 h
  have horder := inOrder_program (body tokens)
  rw [Rejection.every.inj hevery]
  refine List.pairwise_map.2 (horder.pairwise.imp_of_mem fun hf hg hpair => ?_)
  exact precedes_ofFailure (horder.blamed_suffix hf) (horder.blamed_suffix hg)
    (length_blamed_lt_or_eq_nil hpair.1 hpair.2)

/-- A mistake names the token at its position, which is the end of input behind all the others. -/
lemma getElem?_position_of_mem
    (h : (readTokens .recovering tokens).result = .error (.every errors)) {e : SyntaxError}
    (he : e ∈ errors) :
    (sentence tokens)[e.position]? = some e.token ∧
      (e.isAtEnd = true ↔ e.position = (body tokens).length) := by
  obtain ⟨-, hevery⟩ := result_readTokens_recovering_eq_error.1 h
  rw [Rejection.every.inj hevery] at he
  obtain ⟨f, hf, rfl⟩ := List.mem_map.1 he
  have hblamed := (inOrder_program (body tokens)).blamed_suffix hf
  have hlength := hblamed.length_le
  refine ⟨getElem?_position_ofFailure hblamed, ?_⟩
  rw [isAtEnd_ofFailure hblamed, ← List.length_eq_zero_iff]
  dsimp only [SyntaxError.ofFailure]
  omega

end Mistakes

/-- The lines of the tokens of a script do not go back, so neither do those of its mistakes. -/
lemma pairwise_line {source : Bytes} {errors : List SyntaxError}
    (h : parse .recovering source = .error (.every errors)) :
    errors.Pairwise fun e e' => e.token.line ≤ e'.token.line := by
  unfold parse readSource at h
  cases hscan : scan source with
  | error e =>
    rw [hscan] at h
    cases h
  | ok tokens =>
    rw [hscan] at h
    obtain ⟨-, hlines⟩ := Scan.pairwise_line_scanFrom tokens hscan
    refine (pairwise_precedes h).imp_of_mem fun {e e'} he he' hprecedes => ?_
    obtain ⟨hposition, -⟩ := getElem?_position_of_mem h he
    obtain ⟨hposition', -⟩ := getElem?_position_of_mem h he'
    rw [sentence_of_scan hscan] at hposition hposition'
    obtain ⟨hlt, hget⟩ := List.getElem?_eq_some_iff.1 hposition
    obtain ⟨hlt', hget'⟩ := List.getElem?_eq_some_iff.1 hposition'
    rcases Nat.eq_or_lt_of_le hprecedes.position_le with heq | hbefore
    · rw [← hget, ← hget']
      simp only [heq, Int.le_refl]
    · rw [← hget, ← hget']
      exact List.pairwise_iff_getElem.1 hlines _ _ hlt hlt' hbefore

/-- When reading goes on after mistakes, they are listed in the order of the text: each of them
names the token at its position, the positions only grow until the end of input is to blame, and
from then on it always is.  There are at most as many mistakes as tokens before the end of input.
So the lines on which a script has its mistakes never go back. -/
theorem mistakes_are_ordered_and_bounded :
    (∀ tokens errors, (readTokens .recovering tokens).result = .error (.every errors) →
        (∀ e ∈ errors, (sentence tokens)[e.position]? = some e.token ∧
          (e.isAtEnd = true ↔ e.position = (body tokens).length)) ∧
        errors.Pairwise Precedes ∧ errors.length ≤ (body tokens).length) ∧
      ∀ source errors, parse .recovering source = .error (.every errors) →
        errors.Pairwise fun e e' => e.token.line ≤ e'.token.line := by
  refine ⟨fun tokens errors h => ?_, fun source errors h => pairwise_line h⟩
  refine ⟨fun e he => getElem?_position_of_mem h he, pairwise_precedes h, ?_⟩
  obtain ⟨-, hevery⟩ := result_readTokens_recovering_eq_error.1 h
  rw [Rejection.every.inj hevery, List.length_map]
  exact length_overcome_program_le (body tokens)

/-- In `{ { (x) = y; print` the target of the assignment is wrong, and three things are missing at
the end. -/
theorem mistakes_are_ordered_and_bounded_unclosed :
    let tokens : List Token := [.sign .leftBrace, .sign .leftBrace, .sign .leftParen, .identifier,
      .sign .rightParen, .sign .equal, .identifier, .sign .semicolon,
      .keyword .printWord].map fun kind => ⟨kind, utf8 "x", .nil, 1⟩
    ∃ errors, (readTokens .recovering tokens).result = .error (.every errors) ∧
      errors.map SyntaxError.position = [5, 9, 9, 9] ∧ errors.Pairwise Precedes ∧
      errors.length ≤ (body tokens).length := by
  intro tokens
  obtain ⟨errors, herrors, hpositions⟩ :
      ∃ errors, (readTokens .recovering tokens).result = .error (.every errors) ∧
        errors.map SyntaxError.position = [5, 9, 9, 9] := ⟨_, rfl, rfl⟩
  obtain ⟨-, hprecedes, hlength⟩ := mistakes_are_ordered_and_bounded.1 tokens errors herrors
  exact ⟨errors, herrors, hpositions, hprecedes, hlength⟩

end LoxScript.Grammar
