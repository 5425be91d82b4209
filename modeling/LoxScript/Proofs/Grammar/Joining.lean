import LoxScript.Proofs.Execution.Relocation
import LoxScript.Proofs.Grammar.Source
import LoxScript.Proofs.Printing.Parentheses
import LoxScript.Proofs.Token.LineBreak

/-!
# Scripts below one another

Scripts that are programs make a program when they are put below one another, with a line break
between each and the next.  It has the statements of all of them, in order and each on the lines it
has come to stand on.

The tokens of a script are those of a tidy sequence of declarations.  Moved to other lines it stays
one, and two of them make one: no declaration starts with `else`, so none takes a part of the one
before it.
-/

namespace LoxScript

open Grammar Scan

namespace Grammar

/-! ### Trees on other lines -/

section Relocate

variable (f : Int → Int)

/-- The word on another line. -/
def relocateWord {kinds : List Kind} (w : Word kinds) : Word kinds :=
  ⟨w.1.relocate f, by rw [Token.kind_relocate]; exact w.2⟩

/-- The tree on other lines. -/
def ExprTree.relocate : {c : ExprCategory} → ExprTree c → ExprTree c
  | _, expression e => expression e.relocate
  | _, assign target equal value =>
    assign (relocateWord f target) (relocateWord f equal) value.relocate
  | _, ofEquality e => ofEquality e.relocate
  | _, ofOperand e => ofOperand e.relocate
  | _, binary left operator right => binary left.relocate (relocateWord f operator) right.relocate
  | _, unary operator right => unary (relocateWord f operator) right.relocate
  | _, ofPrimary e => ofPrimary e.relocate
  | _, literal token => literal (relocateWord f token)
  | _, name token => name (relocateWord f token)
  | _, grouping opening inner closing =>
    grouping (relocateWord f opening) inner.relocate (relocateWord f closing)

lemma ExprTree.tokens_relocate {c : ExprCategory} (D : ExprTree c) :
    (D.relocate f).tokens = D.tokens.map (Token.relocate f) := by
  induction D with
  | expression e ih => exact ih
  | ofEquality e ih => exact ih
  | ofOperand e ih => exact ih
  | ofPrimary e ih => exact ih
  | assign target equal value ih => simp [relocate, tokens, relocateWord, ih]
  | binary left operator right ihl ihr => simp [relocate, tokens, relocateWord, ihl, ihr]
  | unary operator right ih => simp [relocate, tokens, relocateWord, ih]
  | literal token => rfl
  | name token => rfl
  | grouping opening inner closing ih => simp [relocate, tokens, relocateWord, ih]

lemma ExprTree.value_relocate {c : ExprCategory} (D : ExprTree c) :
    (D.relocate f).value = D.value.relocate f := by
  induction D with
  | expression e ih => exact ih
  | ofEquality e ih => exact ih
  | ofOperand e ih => exact ih
  | ofPrimary e ih => exact ih
  | assign target equal value ih => exact congrArg (Expr.assign _) ih
  | binary left operator right ihl ihr => exact congrArg₂ (Expr.binary _ _) ihl ihr
  | unary operator right ih => exact congrArg (Expr.unary _ _) ih
  | literal token => rfl
  | name token => rfl
  | grouping opening inner closing ih => exact congrArg (Expr.grouping _) ih

/-- What a tree of the category stands for, on other lines. -/
def StmtCategory.relocate : {c : StmtCategory} → c.Value → c.Value
  | .program, p | .declarations, p => Program.relocate f p
  | .declaration, s | .varDecl, s | .statement, s | .exprStmt, s | .printStmt, s | .ifStmt, s
  | .block, s => Stmt.relocate f s

namespace StmtTree

/-- The tree on other lines. -/
def relocate {c : StmtCategory} (D : StmtTree c) : StmtTree c :=
  D.map (relocateWord f) (ExprTree.relocate f)

lemma tokens_relocate {c : StmtCategory} (D : StmtTree c) :
    (D.relocate f).tokens = D.tokens.map (Token.relocate f) := by
  unfold relocate
  induction D with
  | nothing => rfl
  | var keyword name semicolon => rfl
  | ofVarDecl d ih | ofStatement d ih | ofExprStmt d ih | ofPrintStmt d ih | ofIfStmt d ih
  | ofBlock d ih => exact ih
  | program body stop ih => simp [map, tokens, relocateWord, ih]
  | more first others ihf iho => simp [map, tokens, ihf, iho]
  | varInit keyword name equal initial semicolon =>
    simp [map, tokens, relocateWord, ExprTree.tokens_relocate]
  | exprStmt e semicolon => simp [map, tokens, relocateWord, ExprTree.tokens_relocate]
  | printStmt keyword e semicolon =>
    simp [map, tokens, relocateWord, ExprTree.tokens_relocate]
  | ifThen keyword opening condition closing consequence ih =>
    simp [map, tokens, relocateWord, ExprTree.tokens_relocate, ih]
  | ifElse keyword opening condition closing consequence otherwise alternative iht ihe =>
    simp [map, tokens, relocateWord, ExprTree.tokens_relocate, iht, ihe]
  | block opening body closing ih => simp [map, tokens, relocateWord, ih]

lemma value_relocate {c : StmtCategory} (D : StmtTree c) :
    (D.relocate f).value = StmtCategory.relocate f D.value := by
  unfold relocate
  induction D with
  | program body stop ih => exact ih
  | nothing => rfl
  | more first others ihf iho => exact congrArg₂ List.cons ihf iho
  | ofVarDecl d ih | ofStatement d ih | ofExprStmt d ih | ofPrintStmt d ih | ofIfStmt d ih
  | ofBlock d ih => exact ih
  | var keyword name semicolon => rfl
  | varInit keyword name equal initial semicolon =>
    exact congrArg (fun e => Stmt.var _ _ (some e)) (initial.value_relocate f)
  | exprStmt e semicolon =>
    obtain ⟨first, others, htokens⟩ := List.exists_cons_of_ne_nil e.tokens_ne_nil
    have hmoved := e.tokens_relocate f
    rw [htokens] at hmoved
    rw [map, value, value, htokens, hmoved, e.value_relocate f]
    rfl
  | printStmt keyword e semicolon => exact congrArg (Stmt.print _) (e.value_relocate f)
  | ifThen keyword opening condition closing consequence ih =>
    exact congrArg₂ (Stmt.ifThen _) (condition.value_relocate f) ih
  | ifElse keyword opening condition closing consequence otherwise alternative iht ihe =>
    rw [map, value, condition.value_relocate f, iht, ihe]
    rfl
  | block opening body closing ih => exact congrArg (Stmt.block _) ih

end StmtTree

end Relocate

/-! ### Declarations after declarations -/

namespace StmtTree

/-- The declarations of one sequence and then those of another. -/
def append : StmtTree .declarations → StmtTree .declarations → StmtTree .declarations
  | nothing, later => later
  | more first others, later => more first (others.append later)

lemma tokens_append (D later : StmtTree .declarations) :
    (D.append later).tokens = D.tokens ++ later.tokens := by
  match D with
  | nothing => rw [append, tokens, List.nil_append]
  | more first others =>
    rw [append, tokens, tokens, tokens_append others later, List.append_assoc]

lemma value_append (D later : StmtTree .declarations) :
    (D.append later).value = (D.value : List Stmt) ++ (later.value : List Stmt) := by
  match D with
  | nothing => rw [append, value, List.nil_append]
  | more first others => rw [append, value, value, value_append others later, List.cons_append]

lemma Tidy.append {D later : StmtTree .declarations} (h : D.Tidy) (hlater : later.Tidy) :
    (D.append later).Tidy := by
  match D with
  | nothing =>
    rw [StmtTree.append]
    exact hlater
  | more first others =>
    rw [StmtTree.append]
    exact ⟨h.1, Tidy.append h.2 hlater⟩

end StmtTree

end Grammar

/-! ### Scripts and tidy trees -/

/-- A script is a program when its tokens are those of a tidy sequence of declarations. -/
lemma parse_of_tidy {source : Bytes} {B : StmtTree .declarations} {last : Int} (h : B.Tidy)
    (hscan : scan source = .ok (B.tokens ++ [Token.atEnd last])) :
    parse .failFast source = .ok B.value := by
  have htidy : (StmtTree.program B ⟨Token.atEnd last, List.mem_singleton.2 rfl⟩).Tidy := h
  have hsettled : (StmtTree.program B ⟨Token.atEnd last, List.mem_singleton.2 rfl⟩).Settled [] :=
    htidy.settled fun _ => not_starts_nil
  exact parse_eq_ok_iff.2 ⟨_, hscan, _, rfl, hsettled, rfl⟩

/-- The tokens of a program are those of a tidy sequence of declarations. -/
lemma exists_tidy_of_parse {source : Bytes} {p : Program} (h : parse .failFast source = .ok p) :
    ∃ (B : StmtTree .declarations) (last : Int),
      scan source = .ok (B.tokens ++ [Token.atEnd last]) ∧ B.Tidy ∧ B.value = p := by
  obtain ⟨tokens, hscan, D, hD, hsettled, rfl⟩ := parse_eq_ok_iff.1 h
  have htidy : D.Tidy := by
    rw [← StmtTree.eq_of_tokens_eq D.tokens_settle D.settled_settle hsettled]
    exact D.tidy_settle
  obtain ⟨words, last, rfl, -⟩ := exists_spelled_of_scan hscan
  cases D with
  | program B stop =>
    have hwords : B.tokens = words := (List.append_inj' hD rfl).1
    rw [← hwords] at hscan
    exact ⟨B, last, hscan, htidy, rfl⟩

/-! ### Putting scripts below one another -/

namespace Bytes

/-- How many lines texts take up when they are put below one another. -/
def lineCount : List Bytes → Nat
  | [] => 0
  | text :: below => text.count newline + 1 + lineCount below

end Bytes

/-- The statements of scripts that are put below one another, when `k` lines stand above them.  Each
script comes with its own statements. -/
def Program.stacked (k : Int) : List (Bytes × Program) → Program
  | [] => []
  | (text, p) :: below =>
    Program.relocate (· + k) p ++ Program.stacked (k + (text.count Bytes.newline + 1)) below

/-- A program whose text starts `k` lines further down has the tokens of a tidy sequence of
declarations, which stand `k` lines further down. -/
lemma exists_tidy_of_scanFrom {text : Bytes} {p : Program} (h : parse .failFast text = .ok p)
    (k : Int) :
    ∃ B : StmtTree .declarations,
      scanFrom (1 + k) text =
        .ok (B.tokens ++ [Token.atEnd (1 + k + text.count Bytes.newline)]) ∧
      B.Tidy ∧ B.value = Program.relocate (· + k) p := by
  obtain ⟨B, last, hscan, htidy, rfl⟩ := exists_tidy_of_parse h
  have hlast : last = 1 + text.count Bytes.newline := by
    have hend := getLast?_scanFrom _ hscan
    rw [List.getLast?_concat] at hend
    exact congrArg Token.line (Option.some.inj hend)
  refine ⟨B.relocate (· + k), ?_, htidy.map _ _, B.value_relocate _⟩
  have hmoved : scanFrom (1 + k) text = relocateScan (· + k) (scan text) := scanFrom_add k 1 text
  rw [hmoved, hscan, B.tokens_relocate, relocateScan, List.map_append, List.map_singleton, hlast,
    Int.add_right_comm]
  rfl

/-- Scripts below one another, with `k` lines above them, have the tokens of a tidy sequence of
declarations, and its value is their statements. -/
lemma exists_tidy_of_joinLines {entries : List (Bytes × Program)}
    (h : ∀ entry ∈ entries, parse .failFast entry.1 = .ok entry.2) (k : Int) :
    ∃ (B : StmtTree .declarations) (last : Int),
      scanFrom (1 + k) (Bytes.joinLines (entries.map Prod.fst)) =
        .ok (B.tokens ++ [Token.atEnd last]) ∧ B.Tidy ∧ B.value = Program.stacked k entries := by
  induction entries generalizing k with
  | nil =>
    refine ⟨.nothing, 1 + k, ?_, trivial, rfl⟩
    rw [List.map_nil, Bytes.joinLines, List.intercalate_nil, scanFrom]
    rfl
  | cons entry below ih =>
    obtain ⟨hentry, hbelow⟩ := List.forall_mem_cons.1 h
    obtain ⟨B, hscan, htidy, hvalue⟩ := exists_tidy_of_scanFrom hentry k
    cases below with
    | nil =>
      refine ⟨B, 1 + k + entry.1.count Bytes.newline, ?_, htidy, ?_⟩
      · rw [List.map_singleton, Bytes.joinLines_singleton, hscan]
      · rw [hvalue, Program.stacked, Program.stacked, List.append_nil]
    | cons second others =>
      obtain ⟨C, last, hscanBelow, htidyBelow, hvalueBelow⟩ :=
        ih hbelow (k + (entry.1.count Bytes.newline + 1))
      obtain ⟨words, stop, hwords, hcarries⟩ := carries_of_tokenises (tokenises_iff.2 hscan)
      obtain ⟨rfl, hstop⟩ := List.append_inj' hwords rfl
      have hline : stop + 1 = 1 + (k + (entry.1.count Bytes.newline + 1)) := by
        have hlines := congrArg Token.line (List.cons.inj hstop).1
        simp only [Token.atEnd] at hlines
        omega
      refine ⟨B.append C, last, ?_, htidy.append htidyBelow, ?_⟩
      · rw [List.map_cons, List.map_cons, Bytes.joinLines_cons_cons, hcarries, hline,
          ← List.map_cons, hscanBelow, B.tokens_append, List.append_assoc]
        rfl
      · rw [B.value_append, hvalue, hvalueBelow]
        rfl

/-- Scripts that are programs make a program when they are put below one another. -/
theorem parse_joinLines {entries : List (Bytes × Program)}
    (h : ∀ entry ∈ entries, parse .failFast entry.1 = .ok entry.2) :
    parse .failFast (Bytes.joinLines (entries.map Prod.fst)) = .ok (Program.stacked 0 entries) := by
  obtain ⟨B, last, hscan, htidy, hvalue⟩ := exists_tidy_of_joinLines h 0
  rw [← hvalue]
  exact parse_of_tidy htidy hscan

end LoxScript
