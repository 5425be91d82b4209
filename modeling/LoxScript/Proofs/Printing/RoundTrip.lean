import LoxScript.Proofs.Grammar.Source
import LoxScript.Proofs.Printing.Rescan

/-!
# Printing and reading again

The print of a program is a program with the same core, and so it does the same.  The argument goes
through derivation trees: the print has the derivation tree of the program with all parentheses, up
to the lines of the tokens, and it is settled; and there is only one such tree.
-/

namespace LoxScript

open Grammar Scan

/-! ### Trees with the same tokens up to lines -/

/-- Tidy trees whose tokens differ only in their lines have the same core. -/
lemma core_eq_of_unplaced_tokens_eq {D G : StmtTree .program} (hD : D.Tidy) (hG : G.Tidy)
    (h : G.tokens.map Token.unplaced = D.tokens.map Token.unplaced) :
    Program.core G.value = Program.core D.value := by
  have hsettled : ∀ {E : StmtTree .program}, E.Tidy → E.unplaced.Settled [] := by
    intro E hE
    exact (hE.map unplacedWord ExprTree.unplaced).settled fun _ => not_starts_nil
  have htokens : G.unplaced.tokens = D.unplaced.tokens := by
    rw [G.tokens_unplaced, D.tokens_unplaced, h]
  have htrees : G.unplaced = D.unplaced :=
    StmtTree.eq_of_tokens_eq htokens (hsettled hG) (hsettled hD)
  calc Program.core G.value
      = Program.core G.unplaced.value := G.core_unplaced.symm
    _ = Program.core D.unplaced.value := by rw [htrees]
    _ = Program.core D.value := D.core_unplaced

/-- A settled tree is tidy. -/
lemma tidy_of_settled {D : StmtTree .program} (h : D.Settled []) : D.Tidy := by
  have heq : D = D.settle :=
    StmtTree.eq_of_tokens_eq D.tokens_settle.symm h D.settled_settle
  rw [heq]
  exact D.tidy_settle

/-! ### The print as a script -/

/-- The print of a tree of spelled tokens is cut into its tokens with all parentheses. -/
lemma exists_scan_render {B : StmtTree .declarations} (h : ∀ t ∈ B.tokens, Spelled t) :
    ∃ words last, scan (Program.render B.value) = .ok (words ++ [Token.atEnd last]) ∧
      words.map Token.unplaced = B.parenthesised.tokens.map Token.unplaced :=
  (B.rescans (by decide) h clear_nil).exists_scan

/-- Printing a program that was read and reading it again gives a program with the same core, and
both write the same output and fail for the same reason. -/
theorem parse_render {source : Bytes} {p : Program} (h : parse .failFast source = .ok p) :
    ∃ p', parse .failFast (Program.render p) = .ok p' ∧ Program.core p' = Program.core p ∧
      ∀ sink, (run sink p' .fresh).unplaced = (run sink p .fresh).unplaced := by
  obtain ⟨tokens, hscan, D, hD, hsettled, rfl⟩ := parse_eq_ok_iff.1 h
  obtain ⟨words, line, rfl, hspelled⟩ := exists_spelled_of_scan hscan
  have htidy : D.Tidy := tidy_of_settled hsettled
  cases D with
  | program B stop =>
    obtain ⟨hwords, hstop⟩ := List.append_inj' hD rfl
    obtain ⟨words', line', hscan', hwords'⟩ := exists_scan_render (hwords ▸ hspelled)
    -- The tokens of the print are those of the tree with all parentheses, up to their lines.
    let E := (StmtTree.program B stop).parenthesised
    have hE : E.Tidy := htidy.map _ _
    have htokens : (words' ++ [Token.atEnd line']).map Token.unplaced =
        E.tokens.map Token.unplaced := by
      have hEtokens : E.tokens = B.parenthesised.tokens ++ [Token.atEnd line] :=
        congrArg (B.parenthesised.tokens ++ ·) hstop
      rw [hEtokens, List.map_append, List.map_append, hwords']
      rfl
    have hkinds : (words' ++ [Token.atEnd line']).map Token.kind = E.tokens.map Token.kind := by
      have hkind : Token.kind = Token.kind ∘ Token.unplaced := rfl
      rw [hkind, ← List.map_map, ← List.map_map, htokens]
    -- So the print has a tree, and its core is that of the program.
    have hlanguage := (mem_language_iff_exists_tree E.tokens).2 ⟨E, rfl⟩
    rw [← hkinds] at hlanguage
    obtain ⟨F, hF⟩ := (mem_language_iff_exists_tree _).1 hlanguage
    have hG : F.settle.tokens = words' ++ [Token.atEnd line'] := F.tokens_settle.trans hF
    have hcore : Program.core F.settle.value = Program.core (StmtTree.program B stop).value :=
      (core_eq_of_unplaced_tokens_eq hE F.tidy_settle (by rw [hG, htokens])).trans
        (StmtTree.program B stop).core_parenthesised
    refine ⟨F.settle.value, ?_, hcore, fun sink => unplaced_run_of_core_eq hcore sink .fresh⟩
    exact parse_eq_ok_iff.2 ⟨_, hscan', F.settle, hG, F.settled_settle, rfl⟩

/-- A script with a dangling `else`, an assignment, a string with an escape, and operators of
several levels. -/
theorem parse_render_dangling :
    ∃ p, parse .failFast
        (utf8 "if (a) if (!b) print \"x\\n\" == a + b * -c; else c = d = (\"y\"); // end") = .ok p ∧
      ∃ p', parse .failFast (Program.render p) = .ok p' ∧ Program.core p' = Program.core p ∧
        ∀ sink, (run sink p' .fresh).unplaced = (run sink p .fresh).unplaced := by
  generalize hsource :
    utf8 "if (a) if (!b) print \"x\\n\" == a + b * -c; else c = d = (\"y\"); // end" = source
  have hread : (parse .failFast source).isOk = true := by
    rw [← hsource]
    decide +kernel
  cases hp : parse .failFast source with
  | error r =>
    rw [hp] at hread
    cases hread
  | ok p => exact ⟨p, rfl, parse_render hp⟩

end LoxScript
