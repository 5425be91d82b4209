import LoxScript.Proofs.Grammar.Correctness
import LoxScript.Proofs.Token.LongestMatch

/-!
# Scripts and their trees

A script is a program exactly when it can be cut into tokens and these have a settled derivation
tree.  The two modes of reading accept the same scripts, so nothing that is said about accepted
programs depends on the mode.
-/

namespace LoxScript

open Grammar Scan

section Words

variable {words : List Token} (h : ∀ t ∈ words, Spelled t) (last : Int)

include h

lemma body_of_spelled : body (words ++ [Token.atEnd last]) = words := by
  have hkinds : ∀ t ∈ words, t.kind ≠ .endOfInput := fun t ht => (h t ht).kind_ne_endOfInput
  rw [body_append_of_forall_ne hkinds]
  simp [body, Token.atEnd]

lemma stop_of_spelled : stop (words ++ [Token.atEnd last]) = Token.atEnd last := by
  have hkinds : ∀ t ∈ words, t.kind ≠ .endOfInput := fun t ht => (h t ht).kind_ne_endOfInput
  have hnone : words.find? (·.kind = .endOfInput) = none := by simpa using hkinds
  have hsome : (words ++ [Token.atEnd last]).find? (·.kind = .endOfInput) =
      some (Token.atEnd last) := by
    rw [List.find?_append, hnone]
    rfl
  rw [stop, hsome]

end Words

/-- The tokens of a script are all read. -/
lemma sentence_of_scan {source : Bytes} {tokens : List Token} (h : scan source = .ok tokens) :
    sentence tokens = tokens := by
  obtain ⟨words, last, rfl, hwords⟩ := exists_spelled_of_scan h
  rw [sentence, body_of_spelled hwords, stop_of_spelled hwords]

/-- A script is a program exactly when its tokens have a settled tree of that value. -/
lemma parse_eq_ok_iff {source : Bytes} {p : Program} :
    parse .failFast source = .ok p ↔ ∃ tokens, scan source = .ok tokens ∧
      ∃ D : StmtTree .program, D.tokens = tokens ∧ D.Settled [] ∧ D.value = p := by
  unfold parse readSource
  cases hscan : scan source with
  | error e =>
    refine ⟨nofun, ?_⟩
    rintro ⟨tokens, htokens, -⟩
    cases htokens
  | ok tokens =>
    rw [result_readTokens_failFast_iff_tree, sentence_of_scan hscan]
    constructor
    · rintro ⟨D, hD⟩
      exact ⟨tokens, rfl, D, hD⟩
    · rintro ⟨tokens', htokens, D, hD⟩
      cases htokens
      exact ⟨D, hD⟩

/-! ### Either mode -/

/-- Reading in either mode finds the programs that reading up to the first mistake finds. -/
lemma result_readTokens_eq_ok_iff_failFast {mode : Mode} {tokens : List Token} {p : Program} :
    (readTokens mode tokens).result = .ok p ↔ (readTokens .failFast tokens).result = .ok p := by
  cases mode with
  | failFast => exact Iff.rfl
  | recovering =>
    obtain ⟨q, hlenient⟩ := exists_result_program_recovering (body tokens)
    have hagrees := program_agrees (body tokens)
    have hstrict := hagrees.result_eq
    rw [result_readTokens_failFast_eq_ok]
    unfold readTokens
    dsimp only
    rw [hlenient]
    -- The first mistake that was overcome, if any, is what stops the strict reading.
    cases hmistakes : (program .recovering (body tokens)).overcome with
    | nil =>
      rw [hmistakes, hlenient] at hstrict
      rw [hstrict]
      simp
    | cons first others =>
      rw [hmistakes] at hstrict
      rw [hstrict]
      exact ⟨nofun, nofun⟩

lemma parse_eq_ok_iff_failFast {mode : Mode} {source : Bytes} {p : Program} :
    parse mode source = .ok p ↔ parse .failFast source = .ok p := by
  unfold parse readSource
  cases scan source with
  | error e => exact Iff.rfl
  | ok tokens => exact result_readTokens_eq_ok_iff_failFast

/-- An accepted script is written with tokens that are spelled in it, and these are the tokens of
declarations of which the program is the value. -/
lemma exists_declarations_of_parse {mode : Mode} {source : Bytes} {p : Program}
    (h : parse mode source = .ok p) :
    ∃ (B : StmtTree .declarations) (last : Int),
      scan source = .ok (B.tokens ++ [Token.atEnd last]) ∧ (∀ t ∈ B.tokens, Spelled t) ∧
        B.value = p := by
  rw [parse_eq_ok_iff_failFast, parse_eq_ok_iff] at h
  obtain ⟨tokens, hscan, D, hD, -, rfl⟩ := h
  obtain ⟨words, last, rfl, hspelled⟩ := exists_spelled_of_scan hscan
  cases D with
  | program B stop =>
    have hwords : B.tokens = words := (List.append_inj' hD rfl).1
    rw [← hwords] at hscan hspelled
    exact ⟨B, last, hscan, hspelled, rfl⟩

end LoxScript
