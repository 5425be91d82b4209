import Mathlib.Data.List.TakeWhile
import LoxScript.Proofs.Grammar.Completeness
import LoxScript.Proofs.Grammar.DanglingElse
import LoxScript.Proofs.Grammar.Language
import LoxScript.Proofs.Grammar.Modes
import LoxScript.Proofs.Grammar.Unambiguous

/-!
# Reading decides the grammar

A list of tokens is read as a program exactly when the grammar derives it, and then the program that
is read is the value of a derivation tree of just these tokens.  A list may have other derivation
trees, but only one that is settled: reading gives back the value of every settled tree, and a tree
is known by its value and its tokens.
-/

namespace LoxScript.Grammar

open LoxScript.Parser

/-! ### Settled trees before other texts -/

namespace StmtTree

/-- A text that does not start with `else` can come after a tree instead of one that does not
either. -/
lemma Settled.replace {c : StmtCategory} {D : StmtTree c} {after after' : List Token}
    (h : D.Settled after)
    (hafter : Starts [.keyword .elseWord] after' → Starts [.keyword .elseWord] after) :
    D.Settled after' := by
  induction D generalizing after after' with
  | program body stop ih => exact ih h fun hstop => starts_cons.2 (starts_cons.1 hstop)
  | more first others ihf iho =>
    obtain ⟨hfirst, hothers⟩ := h
    refine ⟨ihf hfirst fun hstart => ?_, iho hothers hafter⟩
    by_cases hempty : others.tokens = []
    · rw [hempty] at hstart ⊢
      exact hafter hstart
    · rw [starts_append_of_ne_nil hempty] at hstart ⊢
      exact hstart
  | ofVarDecl d ih => exact ih h hafter
  | ofStatement d ih => exact ih h hafter
  | ofExprStmt d ih => exact ih h hafter
  | ofPrintStmt d ih => exact ih h hafter
  | ofIfStmt d ih => exact ih h hafter
  | ofBlock d ih => exact ih h hafter
  | ifThen keyword opening condition closing consequence ih =>
    exact ⟨fun hstart => h.1 (hafter hstart), ih h.2 hafter⟩
  | ifElse keyword opening condition closing consequence otherwise alternative iht ihe =>
    exact ⟨iht h.1 fun hstart => starts_cons.2 (starts_cons.1 hstart), ihe h.2 hafter⟩
  | block opening body closing ih =>
    exact ih h fun hstart => starts_cons.2 (starts_cons.1 hstart)
  | nothing | var | varInit | exprStmt | printStmt => trivial

end StmtTree

/-! ### Programs and their trees -/

/-- The declarations of a settled program are read back. -/
lemma result_declarations_of_settled {B : StmtTree .declarations} {last : Word [.endOfInput]}
    (h : (StmtTree.program B last).Settled []) {fuel : Nat}
    (hfuel : 3 * B.tokens.length + 2 ≤ fuel) :
    (declarations .failFast [] fuel B.tokens).result = .ok (B.value, []) := by
  have hbefore : B.Settled [last.1] := h
  have hread := B.reads hfuel (List.nil_subset _) (.inl rfl)
    (hbefore.replace fun hstart => absurd hstart not_starts_nil)
  rwa [List.append_nil] at hread

/-- A declaration is passed in either mode without a mistake. -/
lemma declaration_of_settled (mode : Mode) {D : StmtTree .declaration} {rest : List Token}
    (h : D.Settled rest) {fuel : Nat} (hfuel : 3 * D.tokens.length + 1 ≤ fuel) :
    (declaration mode fuel (D.tokens ++ rest)).overcome = [] ∧
      (declaration mode fuel (D.tokens ++ rest)).result = .ok (some D.value, rest) := by
  have hstrict : (declaration .failFast fuel (D.tokens ++ rest)).result =
      .ok (some D.value, rest) := D.reads hfuel h
  have hagrees := (agrees_statement_declaration_declarations fuel).2.1 (D.tokens ++ rest)
  cases mode with
  | failFast => exact ⟨hagrees.overcome_eq, hstrict⟩
  | recovering => exact hagrees.of_ok hstrict

/-- Tokens have only one settled tree. -/
lemma StmtTree.eq_of_tokens_eq {D D' : StmtTree .program} (htokens : D.tokens = D'.tokens)
    (hsettled : D.Settled []) (hsettled' : D'.Settled []) : D = D' := by
  have hvalue : D.value = D'.value := by
    cases D with
    | program B last =>
      cases D' with
      | program B' last' =>
        have hbody : B.tokens = B'.tokens := (List.append_inj' htokens rfl).1
        have hread := result_declarations_of_settled hsettled (Nat.le_refl _)
        have hread' := result_declarations_of_settled hsettled' (Nat.le_refl _)
        rw [hbody, hread'] at hread
        exact (Prod.mk.inj (Except.ok.inj hread)).1.symm
  have htokens' : D.tokens ++ [] = D'.tokens ++ [] := by rw [htokens]
  exact (StmtTree.eq_of_value_eq hvalue htokens').1

lemma kind_stop (tokens : List Token) : (stop tokens).kind = .endOfInput := by
  unfold stop
  split
  case h_1 t ht => simpa using List.find?_some ht
  case h_2 => rfl

lemma kind_ne_of_mem_body {tokens : List Token} {t : Token} (h : t ∈ body tokens) :
    t.kind ≠ .endOfInput := by
  rw [body] at h
  simpa using List.mem_takeWhile_imp h

lemma body_of_forall_ne {ts : List Token} (h : ∀ t ∈ ts, t.kind ≠ .endOfInput) : body ts = ts := by
  rw [body, List.takeWhile_eq_self_iff]
  simpa using h

lemma body_append_of_forall_ne {ts : List Token} (h : ∀ t ∈ ts, t.kind ≠ .endOfInput)
    (us : List Token) : body (ts ++ us) = ts ++ body us := by
  rw [body, List.takeWhile_append_of_pos (by simpa using h), body]

/-- Nothing is read from a text that starts with the end of input. -/
lemma body_eq_nil {ts : List Token} (h : ∀ t ∈ ts.head?, t.kind = .endOfInput) : body ts = [] := by
  cases ts with
  | nil => rfl
  | cons t ts =>
    rw [body]
    exact List.takeWhile_cons_of_neg (by simpa using h t rfl)

/-- The tokens that a program is read from, with the end of input after them. -/
def sentence (tokens : List Token) : List Token :=
  body tokens ++ [stop tokens]

lemma sentence_of_forall_ne_endOfInput {ts : List Token} (h : ∀ t ∈ ts, t.kind ≠ .endOfInput) :
    sentence ts = ts ++ [stop ts] := by
  rw [sentence, body_of_forall_ne h]

/-- Reading that stops at the first mistake either finds none, or overcomes none. -/
lemma result_readTokens_failFast_eq_ok {tokens : List Token} {p : Program} :
    (readTokens .failFast tokens).result = .ok p ↔
      (program .failFast (body tokens)).result = .ok (p, []) := by
  obtain ⟨q, hlenient⟩ := exists_result_program_recovering (body tokens)
  obtain ⟨hovercome, hstrict⟩ := program_agrees (body tokens)
  unfold readTokens
  dsimp only
  rw [hovercome]
  cases hmistakes : (program .recovering (body tokens)).overcome with
  | nil =>
    rw [hmistakes, hlenient] at hstrict
    rw [hstrict]
    simp
  | cons first others =>
    rw [hmistakes] at hstrict
    rw [hstrict]
    exact ⟨nofun, nofun⟩

/-- Reading that stops at the first mistake gives it as the failure to read the program. -/
lemma result_readTokens_failFast_eq_error {tokens : List Token} {r : Rejection} :
    (readTokens .failFast tokens).result = .error r ↔
      ∃ f, (program .failFast (body tokens)).result = .error f ∧
        r = .first (.ofFailure (body tokens).length (stop tokens) f) := by
  have hovercome := (program_agrees (body tokens)).overcome_eq
  unfold readTokens
  dsimp only
  rw [hovercome]
  cases (program .failFast (body tokens)).result with
  | error f => simp [eq_comm]
  | ok v => simp

/-- Reading that goes on after mistakes gives those it has overcome. -/
lemma result_readTokens_recovering_eq_error {tokens : List Token} {r : Rejection} :
    (readTokens .recovering tokens).result = .error r ↔
      (program .recovering (body tokens)).overcome ≠ [] ∧
        r = .every ((program .recovering (body tokens)).overcome.map
          (.ofFailure (body tokens).length (stop tokens))) := by
  obtain ⟨p, hlenient⟩ := exists_result_program_recovering (body tokens)
  unfold readTokens
  dsimp only
  rw [hlenient]
  cases (program .recovering (body tokens)).overcome with
  | nil => simp
  | cons first others => simp [eq_comm]

/-- A program is read exactly from the settled trees of which it is the value. -/
lemma result_readTokens_failFast_iff_tree {tokens : List Token} {p : Program} :
    (readTokens .failFast tokens).result = .ok p ↔
      ∃ D : StmtTree .program, D.tokens = sentence tokens ∧ D.Settled [] ∧ D.value = p := by
  rw [result_readTokens_failFast_eq_ok]
  have hend : (stop tokens).kind ∈ [.endOfInput] := List.mem_singleton.2 (kind_stop tokens)
  constructor
  · intro h
    obtain ⟨B, rfl, htokens, hsettled⟩ := (statement_declarations_sound _).2.2 [] h
    refine ⟨.program B ⟨stop tokens, hend⟩, ?_, ?_, rfl⟩
    · rw [StmtTree.tokens, sentence, htokens, List.append_nil]
    · refine hsettled.replace fun hstart => ?_
      rw [starts_cons, kind_stop] at hstart
      simp at hstart
  · rintro ⟨D, htokens, hsettled, rfl⟩
    cases D with
    | program B last =>
      have hbody : B.tokens = body tokens := (List.append_inj' htokens rfl).1
      have hfuel : 3 * B.tokens.length + 2 ≤ fuelFor (body tokens).length := by
        rw [hbody, fuelFor]
        omega
      have hread := result_declarations_of_settled hsettled hfuel
      rwa [hbody] at hread

/-- Tokens are read as a program exactly when the grammar derives them, with the end of input after
them.  The program that is read is the value of a derivation tree of these tokens, the only one in
which no conditional statement without `else` is followed by `else`. -/
theorem readTokens_decides_grammar (ts : List Token) (h : ∀ t ∈ ts, t.kind ≠ .endOfInput) :
    ((∃ p, (readTokens .failFast ts).result = .ok p) ↔
        (ts ++ [stop ts]).map Token.kind ∈ lox.language) ∧
      ∀ p, (readTokens .failFast ts).result = .ok p →
        ∃ D : StmtTree .program, D.tokens = ts ++ [stop ts] ∧ D.value = p ∧ D.Settled [] ∧
          ∀ D' : StmtTree .program, D'.tokens = ts ++ [stop ts] → D'.Settled [] → D' = D := by
  rw [← sentence_of_forall_ne_endOfInput h]
  constructor
  · rw [mem_language_iff_exists_tree]
    constructor
    · rintro ⟨p, hp⟩
      obtain ⟨D, hD, -, -⟩ := result_readTokens_failFast_iff_tree.1 hp
      exact ⟨D, hD⟩
    · rintro ⟨D, hD⟩
      exact ⟨_, result_readTokens_failFast_iff_tree.2
        ⟨D.settle, D.tokens_settle.trans hD, D.settled_settle, rfl⟩⟩
  · intro p hp
    obtain ⟨D, hD, hsettled, hvalue⟩ := result_readTokens_failFast_iff_tree.1 hp
    exact ⟨D, hD, hvalue, hsettled, fun D' hD' hsettled' =>
      StmtTree.eq_of_tokens_eq (hD'.trans hD.symm) hsettled' hsettled⟩

/-- Two conditional statements with one `else`: `if (x) if (x) x; else x = x;`. -/
theorem readTokens_decides_grammar_dangling :
    let ts : List Token := [.keyword .ifWord, .sign .leftParen, .identifier, .sign .rightParen,
      .keyword .ifWord, .sign .leftParen, .identifier, .sign .rightParen, .identifier,
      .sign .semicolon, .keyword .elseWord, .identifier, .sign .equal, .identifier,
      .sign .semicolon].map fun kind => ⟨kind, utf8 "x", .nil, 1⟩
    (∀ t ∈ ts, t.kind ≠ .endOfInput) ∧ (ts ++ [stop ts]).map Token.kind ∈ lox.language ∧
      ∃ p, (readTokens .failFast ts).result = .ok p ∧
        ∃ D : StmtTree .program, D.tokens = ts ++ [stop ts] ∧ D.value = p ∧ D.Settled [] ∧
          ∀ D' : StmtTree .program, D'.tokens = ts ++ [stop ts] → D'.Settled [] → D' = D := by
  intro ts
  have hkinds : ∀ t ∈ ts, t.kind ≠ .endOfInput := by decide
  have hread : ∃ p, (readTokens .failFast ts).result = .ok p := ⟨_, rfl⟩
  obtain ⟨hlanguage, htree⟩ := readTokens_decides_grammar ts hkinds
  obtain ⟨p, hp⟩ := hread
  exact ⟨hkinds, hlanguage.1 ⟨p, hp⟩, p, hp, htree p hp⟩

end LoxScript.Grammar
