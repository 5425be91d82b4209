import LoxScript.Execution
import LoxScript.Proofs.Token.Lines

/-!
# Programs on other lines

The lines of its tokens are all that ties a program to a place.  Moving them moves the line of the
error that ends a run, and changes nothing else: a relocated program writes the same, leaves the
same variables and fails for the same reason.

A relocation is any map of line numbers.  Moving a program down is one, and so is putting all of it
on one line.
-/

namespace LoxScript

/-- The expression on other lines. -/
def Expr.relocate (f : Int → Int) : Expr → Expr
  | literal token value => literal (token.relocate f) value
  | grouping paren inner => grouping (paren.relocate f) (inner.relocate f)
  | unary operator text right => unary (operator.relocate f) text (right.relocate f)
  | binary operator text left right =>
    binary (operator.relocate f) text (left.relocate f) (right.relocate f)
  | name token => name (token.relocate f)
  | assign token value => assign (token.relocate f) (value.relocate f)
  | missing => missing

mutual

/-- The statement on other lines. -/
def Stmt.relocate (f : Int → Int) : Stmt → Stmt
  | .expression start e => .expression (start.relocate f) (e.relocate f)
  | .print keyword e => .print (keyword.relocate f) (e.relocate f)
  | .var keyword name initial =>
    .var (keyword.relocate f) (name.relocate f) (initial.map (Expr.relocate f))
  | .block brace body => .block (brace.relocate f) (Program.relocate f body)
  | .ifThen keyword condition consequence =>
    .ifThen (keyword.relocate f) (condition.relocate f) (consequence.relocate f)
  | .ifElse keyword condition consequence alternative =>
    .ifElse (keyword.relocate f) (condition.relocate f) (consequence.relocate f)
      (alternative.relocate f)
  | .missing => .missing

/-- The statements of a program on other lines. -/
def Program.relocate (f : Int → Int) : List Stmt → List Stmt
  | [] => []
  | s :: rest => s.relocate f :: Program.relocate f rest

end

/-- The error on another line, if it has one. -/
def RuntimeError.relocate (f : Int → Int) : RuntimeError → RuntimeError
  | undefined name line => undefined name (f line)
  | type operator cause => type (operator.relocate f) cause
  | unsupportedLiteral n => unsupportedLiteral n
  | missingExpression => missingExpression
  | missingStatement => missingStatement
  | refused reason => refused reason

/-- What a run leaves behind, with its failure on another line. -/
def Outcome.relocate (f : Int → Int) (o : Outcome) : Outcome :=
  { o with failure := o.failure.map (RuntimeError.relocate f) }

/-- The result of a computation, with its failure on another line. -/
def relocateResult {σ α : Type} (f : Int → Int) :
    EStateM.Result RuntimeError σ α → EStateM.Result RuntimeError σ α
  | .ok a s => .ok a s
  | .error e s => .error (e.relocate f) s

variable {f : Int → Int}

lemma Program.relocate_eq_map (f : Int → Int) (p : Program) :
    Program.relocate f p = p.map (Stmt.relocate f) := by
  induction p with
  | nil => rfl
  | cons stmt rest ih => rw [Program.relocate, List.map_cons, ih]

/-! ### Evaluation -/

/-- Computations that agree up to places do so in sequence. -/
lemma bind_relocate {σ α β : Type} {x x' : EStateM RuntimeError σ α}
    {k k' : α → EStateM RuntimeError σ β} {s : σ} (hx : x' s = relocateResult f (x s))
    (hk : ∀ a t, k' a t = relocateResult f (k a t)) :
    (x' >>= k') s = relocateResult f ((x >>= k) s) := by
  change EStateM.bind x' k' s = relocateResult f (EStateM.bind x k s)
  unfold EStateM.bind
  rw [hx]
  cases hresult : x s with
  | error e t => rfl
  | ok a t => exact hk a t

lemma ofExcept_relocate (r : Except RuntimeError Value) (c : Chain) :
    Eval.ofExcept (r.mapError (RuntimeError.relocate f)) c =
      relocateResult f (Eval.ofExcept r c) := by
  cases r <;> rfl

lemma ofLiteral_relocate (value : Literal) :
    (Value.ofLiteral value).mapError (RuntimeError.relocate f) = Value.ofLiteral value := by
  cases value <;> rfl

lemma applyUnary_relocate (operator : Token) (right : Value) :
    applyUnary (operator.relocate f) right =
      (applyUnary operator right).mapError (RuntimeError.relocate f) := by
  unfold applyUnary
  rw [Token.kind_relocate]
  split
  · rfl
  · cases right <;> rfl
  · rfl

lemma add_relocate (operator : Token) (left right : Value) :
    add (operator.relocate f) left right =
      (add operator left right).mapError (RuntimeError.relocate f) := by
  cases left <;> cases right <;> rfl

lemma applyNumeric_relocate (operator : Token) (x y : Float) :
    applyNumeric (operator.relocate f) x y =
      (applyNumeric operator x y).mapError (RuntimeError.relocate f) := by
  unfold applyNumeric
  rw [Token.kind_relocate]
  split <;> rfl

lemma applyBinary_relocate (operator : Token) (left right : Value) :
    applyBinary (operator.relocate f) left right =
      (applyBinary operator left right).mapError (RuntimeError.relocate f) := by
  unfold applyBinary
  rw [Token.kind_relocate]
  split
  · rfl
  · rfl
  · exact add_relocate operator left right
  · split
    · exact applyNumeric_relocate operator _ _
    · rfl

lemma eval_relocate (e : Expr) (c : Chain) :
    eval (e.relocate f) c = relocateResult f (eval e c) := by
  induction e generalizing c with
  | literal token value =>
    rw [Expr.relocate, eval, eval, ← ofExcept_relocate, ofLiteral_relocate]
  | grouping paren inner ih => rw [Expr.relocate, eval, eval, ih]
  | unary operator text right ih =>
    rw [Expr.relocate, eval, eval]
    refine bind_relocate (ih c) fun r t => ?_
    rw [applyUnary_relocate, ofExcept_relocate]
  | binary operator text left right ihl ihr =>
    rw [Expr.relocate, eval, eval]
    refine bind_relocate (ihl c) fun l t => bind_relocate (ihr t) fun r u => ?_
    rw [applyBinary_relocate, ofExcept_relocate]
  | name token =>
    rw [Expr.relocate, eval, eval]
    refine bind_relocate rfl fun chain t => ?_
    rw [Token.lexeme_relocate]
    cases chain.get? token.lexeme <;> rfl
  | assign token value ih =>
    rw [Expr.relocate, eval, eval]
    refine bind_relocate (ih c) fun v t => bind_relocate rfl fun chain u => ?_
    rw [Token.lexeme_relocate]
    cases chain.assign? token.lexeme v <;> rfl
  | missing => rfl

/-! ### Execution -/

lemma evaluate_relocate (e : Expr) (s : Store) :
    Exec.evaluate (e.relocate f) s = relocateResult f (Exec.evaluate e s) := by
  unfold Exec.evaluate
  rw [eval_relocate]
  cases eval e s.chain <;> rfl

lemma write_relocate (sink : Sink) (chunk : Bytes) (s : Store) :
    Exec.write sink chunk s = relocateResult f (Exec.write sink chunk s) := by
  unfold Exec.write
  cases sink.refuses s.written chunk <;> rfl

lemma inNewScope_relocate {body body' : Exec Unit}
    (h : ∀ s, body' s = relocateResult f (body s)) (s : Store) :
    Exec.inNewScope body' s = relocateResult f (Exec.inNewScope body s) := by
  unfold Exec.inNewScope
  rw [h]
  cases body { s with chain := s.chain.enter } <;> rfl

mutual

lemma exec_relocate (sink : Sink) (stmt : Stmt) (s : Store) :
    exec sink (stmt.relocate f) s = relocateResult f (exec sink stmt s) := by
  match stmt with
  | .expression _ e =>
    rw [Stmt.relocate, exec, exec]
    exact bind_relocate (evaluate_relocate e s) fun _ _ => rfl
  | .print _ e =>
    rw [Stmt.relocate, exec, exec]
    exact bind_relocate (evaluate_relocate e s) fun v t => write_relocate sink _ t
  | .var _ name none => rfl
  | .var _ name (some e) =>
    rw [Stmt.relocate, Option.map_some, exec, exec]
    exact bind_relocate (evaluate_relocate e s) fun _ _ => rfl
  | .block _ body =>
    rw [Stmt.relocate, exec, exec]
    exact inNewScope_relocate (execAll_relocate sink body) s
  | .ifThen _ condition consequence =>
    rw [Stmt.relocate, exec, exec]
    refine bind_relocate (evaluate_relocate condition s) fun c t => ?_
    cases c.isTruthy with
    | true => exact exec_relocate sink consequence t
    | false => rfl
  | .ifElse _ condition consequence alternative =>
    rw [Stmt.relocate, exec, exec]
    refine bind_relocate (evaluate_relocate condition s) fun c t => ?_
    cases c.isTruthy with
    | true => exact exec_relocate sink consequence t
    | false => exact exec_relocate sink alternative t
  | .missing => rfl

lemma execAll_relocate (sink : Sink) (body : List Stmt) (s : Store) :
    execAll sink (Program.relocate f body) s = relocateResult f (execAll sink body s) := by
  match body with
  | [] => rfl
  | stmt :: rest =>
    rw [Program.relocate, execAll, execAll]
    exact bind_relocate (exec_relocate sink stmt s) fun _ t => execAll_relocate sink rest t

end

/-- A relocated program does what the program does, and fails on another line. -/
theorem run_relocate (sink : Sink) (p : Program) (c : Chain) :
    run sink (Program.relocate f p) c = (run sink p c).relocate f := by
  unfold run
  rw [execAll_relocate]
  cases execAll sink p ⟨c, []⟩ <;> rfl

end LoxScript
