import LoxScript.Proofs.Execution.Relocation

/-!
# Programs up to grouping and place

Programs that differ only in parentheses and in the lines of their tokens have the same *core*: the
tree without groupings, with all tokens moved to one line, and with no memory of the token at which
a statement started.  What a program does depends on its core alone, except that an error names the
line on which it arose.
-/

namespace LoxScript

/-- The token without its place. -/
def Token.unplaced (t : Token) : Token :=
  { t with line := 0 }

@[simp] lemma Token.kind_unplaced (t : Token) : t.unplaced.kind = t.kind := rfl

@[simp] lemma Token.lexeme_unplaced (t : Token) : t.unplaced.lexeme = t.lexeme := rfl

@[simp] lemma Token.unplaced_unplaced (t : Token) : t.unplaced.unplaced = t.unplaced := rfl

/-- The expression without groupings and places. -/
def Expr.core : Expr → Expr
  | literal token value => literal token.unplaced value
  | grouping _ inner => inner.core
  | unary operator text right => unary operator.unplaced text right.core
  | binary operator text left right => binary operator.unplaced text left.core right.core
  | name token => name token.unplaced
  | assign token value => assign token.unplaced value.core
  | missing => missing

mutual

/-- The statement without groupings and places, and without the token it starts with if it is an
expression. -/
def Stmt.core : Stmt → Stmt
  | .expression _ e => .expression (Token.atEnd 0) e.core
  | .print keyword e => .print keyword.unplaced e.core
  | .var keyword name initial => .var keyword.unplaced name.unplaced (initial.map Expr.core)
  | .block brace body => .block brace.unplaced (Program.core body)
  | .ifThen keyword condition consequence =>
    .ifThen keyword.unplaced condition.core consequence.core
  | .ifElse keyword condition consequence alternative =>
    .ifElse keyword.unplaced condition.core consequence.core alternative.core
  | .missing => .missing

/-- The cores of the statements of a program. -/
def Program.core : List Stmt → List Stmt
  | [] => []
  | s :: rest => s.core :: Program.core rest

end

/-- The error without the place where it arose. -/
def RuntimeError.unplaced : RuntimeError → RuntimeError
  | undefined name _ => undefined name 0
  | type operator cause => type operator.unplaced cause
  | e => e

/-- What a run leaves behind, without the place of its failure. -/
def Outcome.unplaced (o : Outcome) : Outcome :=
  { o with failure := o.failure.map RuntimeError.unplaced }

/-! ### No place as a place

Leaving out the places is moving everything to one line.
-/

lemma Token.unplaced_eq_relocate (t : Token) : t.unplaced = t.relocate fun _ => 0 := rfl

lemma RuntimeError.unplaced_eq_relocate (e : RuntimeError) :
    e.unplaced = e.relocate fun _ => 0 := by
  cases e <;> rfl

lemma Outcome.unplaced_eq_relocate (o : Outcome) : o.unplaced = o.relocate fun _ => 0 := by
  have herror : RuntimeError.unplaced = RuntimeError.relocate fun _ => 0 :=
    funext RuntimeError.unplaced_eq_relocate
  rw [Outcome.unplaced, Outcome.relocate, herror]

/-! ### Evaluation -/

/-- The core of an expression evaluates as the expression does. -/
lemma eval_core (e : Expr) (c : Chain) :
    eval e.core c = relocateResult (fun _ => 0) (eval e c) := by
  induction e generalizing c with
  | literal token value => rw [Expr.core, eval, eval, ← ofExcept_relocate, ofLiteral_relocate]
  | grouping paren inner ih => rw [Expr.core, eval, ih]
  | unary operator text right ih =>
    rw [Expr.core, eval, eval]
    refine bind_relocate (ih c) fun r t => ?_
    rw [Token.unplaced_eq_relocate, applyUnary_relocate, ofExcept_relocate]
  | binary operator text left right ihl ihr =>
    rw [Expr.core, eval, eval]
    refine bind_relocate (ihl c) fun l t => bind_relocate (ihr t) fun r u => ?_
    rw [Token.unplaced_eq_relocate, applyBinary_relocate, ofExcept_relocate]
  | name token =>
    rw [Expr.core, eval, eval]
    refine bind_relocate rfl fun chain t => ?_
    rw [Token.lexeme_unplaced]
    cases chain.get? token.lexeme <;> rfl
  | assign token value ih =>
    rw [Expr.core, eval, eval]
    refine bind_relocate (ih c) fun v t => bind_relocate rfl fun chain u => ?_
    rw [Token.lexeme_unplaced]
    cases chain.assign? token.lexeme v <;> rfl
  | missing => rfl

/-! ### Execution -/

lemma evaluate_core (e : Expr) (s : Store) :
    Exec.evaluate e.core s = relocateResult (fun _ => 0) (Exec.evaluate e s) := by
  unfold Exec.evaluate
  rw [eval_core]
  cases eval e s.chain <;> rfl

mutual

/-- The core of a statement does what the statement does. -/
lemma exec_core (sink : Sink) (stmt : Stmt) (s : Store) :
    exec sink stmt.core s = relocateResult (fun _ => 0) (exec sink stmt s) := by
  match stmt with
  | .expression _ e =>
    rw [Stmt.core, exec, exec]
    exact bind_relocate (evaluate_core e s) fun _ _ => rfl
  | .print _ e =>
    rw [Stmt.core, exec, exec]
    exact bind_relocate (evaluate_core e s) fun v t => write_relocate sink _ t
  | .var _ name none => rfl
  | .var _ name (some e) =>
    rw [Stmt.core, Option.map_some, exec, exec]
    exact bind_relocate (evaluate_core e s) fun _ _ => rfl
  | .block _ body =>
    rw [Stmt.core, exec, exec]
    exact inNewScope_relocate (execAll_core sink body) s
  | .ifThen _ condition consequence =>
    rw [Stmt.core, exec, exec]
    refine bind_relocate (evaluate_core condition s) fun c t => ?_
    cases c.isTruthy with
    | true => exact exec_core sink consequence t
    | false => rfl
  | .ifElse _ condition consequence alternative =>
    rw [Stmt.core, exec, exec]
    refine bind_relocate (evaluate_core condition s) fun c t => ?_
    cases c.isTruthy with
    | true => exact exec_core sink consequence t
    | false => exact exec_core sink alternative t
  | .missing => rfl

/-- The cores of statements do what the statements do. -/
lemma execAll_core (sink : Sink) (body : List Stmt) (s : Store) :
    execAll sink (Program.core body) s = relocateResult (fun _ => 0) (execAll sink body s) := by
  match body with
  | [] => rfl
  | stmt :: rest =>
    rw [Program.core, execAll, execAll]
    exact bind_relocate (exec_core sink stmt s) fun _ t => execAll_core sink rest t

end

/-- The core of a program does what the program does, and fails when it fails. -/
theorem run_core (sink : Sink) (p : Program) (c : Chain) :
    run sink (Program.core p) c = (run sink p c).unplaced := by
  rw [Outcome.unplaced_eq_relocate]
  unfold run
  rw [execAll_core]
  cases execAll sink p ⟨c, []⟩ <;> rfl

/-- Programs with one core do the same. -/
lemma unplaced_run_of_core_eq {p q : Program} (h : Program.core p = Program.core q) (sink : Sink)
    (c : Chain) : (run sink p c).unplaced = (run sink q c).unplaced := by
  rw [← run_core, ← run_core, h]

end LoxScript
