import LoxScript.Proofs.Execution.Result

/-!
# The names that a run comes to

Programs have no loops, so a run comes to each occurrence of a name at most once.  What it does with
the names of a program can therefore be told as a list with one entry for each occurrence, in the
order in which they are evaluated: the variables at the moment the occurrence is evaluated, or
nothing if the run never comes to it.

The list is made by evaluating the parts of the program just as a run does.  It tells in particular
whether the run ends for want of a name: it does exactly when it comes to a name that is not bound.
-/

namespace LoxScript

/-- An occurrence of a name that is evaluated. -/
structure Visit where
  token : Token
  /-- The variables at that moment. -/
  chain : Chain
  /-- The value that the variable is to get, if the occurrence is the target of an assignment. -/
  assigned : Option Value

/-- The name is not bound, neither for reading nor for assigning. -/
def Visit.Fails (visit : Visit) : Prop :=
  match visit.assigned with
  | none => visit.chain.get? visit.token.lexeme = none
  | some v => visit.chain.assign? visit.token.lexeme v = none

/-! ### Going on after a success -/

section Continuation

variable {σ α τ : Type}

/-- Where a computation that succeeded is to be continued, if at all. -/
def next? (r : EStateM.Result RuntimeError σ α) (f : α → σ → Option τ) : Option τ :=
  match r with
  | .ok a s => f a s
  | .error _ _ => none

lemma next?_eq_some_iff {r : EStateM.Result RuntimeError σ α} {f : α → σ → Option τ} {x : τ} :
    next? r f = some x ↔ ∃ a s, r = .ok a s ∧ f a s = some x := by
  cases r with
  | ok a s =>
    constructor
    · intro h
      exact ⟨a, s, rfl, h⟩
    · rintro ⟨a', s', heq, h⟩
      cases heq
      exact h
  | error e s => simp [next?]

end Continuation

/-! ### The visits -/

/-- What becomes of the names of an expression that is evaluated, if it is evaluated at all. -/
def Expr.visits : Expr → Option Chain → List (Option Visit)
  | literal _ _, _ => []
  | grouping _ inner, c => inner.visits c
  | unary _ _ right, c => right.visits c
  | binary _ _ left right, c =>
    left.visits c ++ right.visits (c.bind fun c => next? (eval left c) fun _ d => some d)
  | name token, c => [c.map (⟨token, ·, none⟩)]
  | assign token value, c =>
    value.visits c ++ [c.bind fun c => next? (eval value c) fun v d => some ⟨token, d, some v⟩]
  | missing, _ => []

/-- The store with which a branch is executed, if the condition chooses it. -/
def branch? (condition : Expr) (truth : Bool) (s : Store) : Option Store :=
  next? (Exec.evaluate condition s) fun v t => if v.isTruthy = truth then some t else none

mutual

/-- What becomes of the names of a statement that is executed, if it is executed at all. -/
def Stmt.visits (sink : Sink) : Stmt → Option Store → List (Option Visit)
  | .expression _ e, s => e.visits (s.map Store.chain)
  | .print _ e, s => e.visits (s.map Store.chain)
  | .var _ _ none, _ => []
  | .var _ _ (some e), s => e.visits (s.map Store.chain)
  | .block _ body, s => Program.visits sink body (s.map fun s => { s with chain := s.chain.enter })
  | .ifThen _ condition consequence, s =>
    condition.visits (s.map Store.chain) ++
      consequence.visits sink (s.bind (branch? condition true))
  | .ifElse _ condition consequence alternative, s =>
    condition.visits (s.map Store.chain) ++
      (consequence.visits sink (s.bind (branch? condition true)) ++
        alternative.visits sink (s.bind (branch? condition false)))
  | .missing, _ => []

/-- What becomes of the names of statements that are executed one after the other. -/
def Program.visits (sink : Sink) : List Stmt → Option Store → List (Option Visit)
  | [], _ => []
  | stmt :: rest, s =>
    stmt.visits sink s ++
      Program.visits sink rest (s.bind fun s => next? (exec sink stmt s) fun _ t => some t)

end

/-! ### Visits at which a run ends -/

/-- One of the visits is to a name that is not bound, with the given text and line. -/
def Stops (name : Bytes) (line : Int) (visits : List (Option Visit)) : Prop :=
  ∃ visit, some visit ∈ visits ∧ visit.Fails ∧ visit.token.lexeme = name ∧ visit.token.line = line

variable {name : Bytes} {line : Int} {sink : Sink}

lemma not_stops_nil : ¬ Stops name line [] := by
  rintro ⟨visit, hmem, -⟩
  exact List.not_mem_nil hmem

lemma stops_append {xs ys : List (Option Visit)} :
    Stops name line (xs ++ ys) ↔ Stops name line xs ∨ Stops name line ys := by
  simp only [Stops, List.mem_append, or_and_right, exists_or]

lemma stops_singleton {visit : Visit} :
    Stops name line [some visit] ↔
      visit.Fails ∧ visit.token.lexeme = name ∧ visit.token.line = line := by
  simp [Stops]

/-- Nothing is visited in an expression that is not evaluated. -/
lemma Expr.not_mem_visits_none (e : Expr) (visit : Visit) : some visit ∉ e.visits none := by
  induction e with
  | literal | missing => exact List.not_mem_nil
  | grouping _ inner ih => exact ih
  | unary _ _ right ih => exact ih
  | binary _ _ left right ihl ihr => simp [visits, ihl, ihr]
  | name token => simp [visits]
  | assign token value ih => simp [visits, ih]

mutual

/-- Nothing is visited in a statement that is not executed. -/
lemma Stmt.not_mem_visits_none (stmt : Stmt) (visit : Visit) :
    some visit ∉ stmt.visits sink none := by
  match stmt with
  | .expression _ e | .print _ e | .var _ _ (some e) => exact e.not_mem_visits_none visit
  | .var _ _ none | .missing => exact List.not_mem_nil
  | .block _ body => exact Program.not_mem_visits_none body visit
  | .ifThen _ condition consequence =>
    have hcondition := condition.not_mem_visits_none visit
    have hconsequence := consequence.not_mem_visits_none visit
    simp [Stmt.visits, hcondition, hconsequence]
  | .ifElse _ condition consequence alternative =>
    have hcondition := condition.not_mem_visits_none visit
    have hconsequence := consequence.not_mem_visits_none visit
    have halternative := alternative.not_mem_visits_none visit
    simp [Stmt.visits, hcondition, hconsequence, halternative]

lemma Program.not_mem_visits_none (body : List Stmt) (visit : Visit) :
    some visit ∉ Program.visits sink body none := by
  match body with
  | [] => exact List.not_mem_nil
  | stmt :: rest =>
    have hstmt := stmt.not_mem_visits_none visit
    have hrest := Program.not_mem_visits_none rest visit
    simp [Program.visits, hstmt, hrest]

end

/-! ### Failing for want of a name -/

section Raises

variable {σ α β τ : Type}

/-- The computation ended because a name is not bound. -/
def Raises (name : Bytes) (line : Int) (r : EStateM.Result RuntimeError σ α) : Prop :=
  ∃ s, r = .error (.undefined name line) s

lemma raises_bind {x : EStateM RuntimeError σ α} {f : α → EStateM RuntimeError σ β} {s : σ} :
    Raises name line ((x >>= f) s) ↔
      Raises name line (x s) ∨ ∃ a t, x s = .ok a t ∧ Raises name line (f a t) := by
  unfold Raises
  simp only [bind_eq_error_iff]
  constructor
  · rintro ⟨t, hfirst | ⟨a, u, hx, hf⟩⟩
    · exact .inl ⟨t, hfirst⟩
    · exact .inr ⟨a, u, hx, t, hf⟩
  · rintro (⟨t, hfirst⟩ | ⟨a, u, hx, t, hf⟩)
    · exact ⟨t, .inl hfirst⟩
    · exact ⟨t, .inr ⟨a, u, hx, hf⟩⟩

lemma not_raises_of_ok {a : α} {s : σ} :
    ¬ Raises name line (.ok a s : EStateM.Result RuntimeError σ α) := by
  rintro ⟨t, h⟩
  cases h

/-- What comes after a success is visited after it only. -/
lemma stops_next? {visits : Option τ → List (Option Visit)}
    (hnone : ∀ visit, some visit ∉ visits none) {r : EStateM.Result RuntimeError σ α}
    {f : α → σ → Option τ} :
    Stops name line (visits (next? r f)) ↔
      ∃ a s, r = .ok a s ∧ Stops name line (visits (f a s)) := by
  cases r with
  | ok a s =>
    constructor
    · intro h
      exact ⟨a, s, rfl, h⟩
    · rintro ⟨a', s', heq, h⟩
      cases heq
      exact h
  | error e s =>
    constructor
    · rintro ⟨visit, hmem, -⟩
      exact absurd hmem (hnone visit)
    · rintro ⟨a, s', heq, -⟩
      cases heq

end Raises

lemma not_raises_ofExcept {r : Except RuntimeError Value}
    (h : r ≠ .error (.undefined name line)) (c : Chain) :
    ¬ Raises name line (Eval.ofExcept r c) := by
  rintro ⟨d, hd⟩
  cases r with
  | ok v => cases hd
  | error e =>
    cases hd
    exact h rfl

lemma ofLiteral_ne_undefined (value : Literal) :
    Value.ofLiteral value ≠ .error (.undefined name line) := by
  cases value <;> simp [Value.ofLiteral]

lemma applyUnary_ne_undefined (operator : Token) (right : Value) :
    applyUnary operator right ≠ .error (.undefined name line) := by
  unfold applyUnary
  split
  · simp
  · split <;> simp
  · simp

lemma applyBinary_ne_undefined (operator : Token) (left right : Value) :
    applyBinary operator left right ≠ .error (.undefined name line) := by
  unfold applyBinary
  split
  · simp
  · simp
  · unfold add
    split <;> simp
  · split
    · unfold applyNumeric
      split <;> simp
    · simp

/-- The evaluation of a name fails for want of it when it is not bound. -/
lemma raises_eval_name (token : Token) (c : Chain) :
    Raises name line (eval (.name token) c) ↔ Stops name line [some ⟨token, c, none⟩] := by
  rw [stops_singleton, eval_name]
  unfold Raises Visit.Fails
  cases c.get? token.lexeme <;> simp

/-- So does an assignment whose value is known. -/
lemma raises_eval_assign {token : Token} {value : Expr} {c d : Chain} {v : Value}
    (h : eval value c = .ok v d) :
    Raises name line (eval (.assign token value) c) ↔
      Stops name line [some ⟨token, d, some v⟩] := by
  rw [stops_singleton, eval_assign_of_ok h]
  unfold Raises Visit.Fails
  cases hassign : d.assign? token.lexeme v <;> simp [hassign]

/-- The evaluation of an expression fails for want of a name when it comes to one that is not
bound. -/
lemma raises_eval_iff (e : Expr) (c : Chain) :
    Raises name line (eval e c) ↔ Stops name line (e.visits (some c)) := by
  induction e generalizing c with
  | literal _ value =>
    rw [eval, Expr.visits]
    exact iff_of_false (not_raises_ofExcept (ofLiteral_ne_undefined value) c) not_stops_nil
  | grouping _ inner ih => exact ih c
  | unary operator _ right ih =>
    have hlast : ∀ r d, ¬ Raises name line (Eval.ofExcept (applyUnary operator r) d) :=
      fun r d => not_raises_ofExcept (applyUnary_ne_undefined operator r) d
    rw [eval, raises_bind, Expr.visits, ih]
    simp only [hlast, and_false, exists_false, or_false]
  | binary operator _ left right ihl ihr =>
    have hlast : ∀ l r d, ¬ Raises name line (Eval.ofExcept (applyBinary operator l r) d) :=
      fun l r d => not_raises_ofExcept (applyBinary_ne_undefined operator l r) d
    rw [eval, raises_bind, Expr.visits, stops_append, ihl, Option.bind_some,
      stops_next? right.not_mem_visits_none]
    simp only [raises_bind, hlast, and_false, exists_false, or_false, ihr]
  | name token => exact raises_eval_name token c
  | assign token value ih =>
    rw [Expr.visits, stops_append, ← ih, Option.bind_some]
    cases hvalue : eval value c with
    | error e d =>
      rw [eval, bind_of_result_error hvalue]
      simp [next?, Stops, Raises]
    | ok v d =>
      rw [raises_eval_assign hvalue]
      simp only [next?, not_raises_of_ok, false_or]
  | missing =>
    refine iff_of_false ?_ not_stops_nil
    rintro ⟨d, hd⟩
    cases hd

lemma raises_evaluate_iff (e : Expr) (s : Store) :
    Raises name line (Exec.evaluate e s) ↔ Stops name line (e.visits (some s.chain)) := by
  rw [← raises_eval_iff]
  unfold Raises
  simp only [Exec.evaluate_eq_error_iff]
  constructor
  · rintro ⟨t, c, heval, -⟩
    exact ⟨c, heval⟩
  · rintro ⟨c, heval⟩
    exact ⟨_, c, heval, rfl⟩

lemma not_raises_write (chunk : Bytes) (s : Store) :
    ¬ Raises name line (Exec.write sink chunk s) := by
  rintro ⟨t, h⟩
  unfold Exec.write at h
  split at h <;> cases h

lemma raises_inNewScope (body : Exec Unit) (s : Store) :
    Raises name line (Exec.inNewScope body s) ↔
      Raises name line (body { s with chain := s.chain.enter }) := by
  unfold Raises Exec.inNewScope
  cases body { s with chain := s.chain.enter } <;> simp

/-- A branch is visited when the condition chooses it. -/
lemma stops_branch? {visits : Option Store → List (Option Visit)}
    (hnone : ∀ visit, some visit ∉ visits none) (condition : Expr) (truth : Bool) (s : Store) :
    Stops name line (visits (branch? condition truth s)) ↔
      ∃ v t, Exec.evaluate condition s = .ok v t ∧ v.isTruthy = truth ∧
        Stops name line (visits (some t)) := by
  unfold branch?
  rw [stops_next? hnone]
  refine exists_congr fun v => exists_congr fun t => and_congr_right fun _ => ?_
  by_cases htruth : v.isTruthy = truth
  · simp [htruth]
  · have hnever : ¬ Stops name line (visits none) := fun ⟨visit, hmem, _⟩ => hnone visit hmem
    simp [htruth, hnever]

variable (sink) in
mutual

/-- The execution of a statement fails for want of a name when it comes to one that is not bound. -/
lemma raises_exec_iff (stmt : Stmt) (s : Store) :
    Raises name line (exec sink stmt s) ↔ Stops name line (stmt.visits sink (some s)) := by
  match stmt with
  | .expression _ e =>
    rw [exec, raises_bind, raises_evaluate_iff]
    simp [pure, EStateM.pure, not_raises_of_ok, Stmt.visits]
  | .print _ e =>
    rw [exec, raises_bind, raises_evaluate_iff]
    simp [not_raises_write, Stmt.visits]
  | .var _ token none =>
    refine iff_of_false ?_ not_stops_nil
    rintro ⟨t, h⟩
    cases h
  | .var _ token (some e) =>
    rw [exec, raises_bind, raises_evaluate_iff]
    have hdefine : ∀ v t, ¬ Raises name line (Exec.define token.lexeme v t) := by
      rintro v t ⟨u, h⟩
      cases h
    simp [hdefine, Stmt.visits]
  | .block _ body =>
    rw [exec, raises_inNewScope, raises_execAll_iff]
    rfl
  | .ifThen _ condition consequence =>
    rw [exec, raises_bind, raises_evaluate_iff, Stmt.visits, stops_append, Option.bind_some,
      stops_branch? consequence.not_mem_visits_none]
    refine or_congr Iff.rfl
      (exists_congr fun v => exists_congr fun t => and_congr_right fun _ => ?_)
    cases v.isTruthy with
    | true => simpa using raises_exec_iff consequence t
    | false => simp [pure, EStateM.pure, not_raises_of_ok]
  | .ifElse _ condition consequence alternative =>
    rw [exec, raises_bind, raises_evaluate_iff, Stmt.visits, stops_append, stops_append,
      Option.bind_some, Option.bind_some, stops_branch? consequence.not_mem_visits_none,
      stops_branch? alternative.not_mem_visits_none, ← exists_or]
    refine or_congr Iff.rfl (exists_congr fun v => ?_)
    rw [← exists_or]
    refine exists_congr fun t => ?_
    rw [← and_or_left]
    refine and_congr_right fun _ => ?_
    cases v.isTruthy with
    | true => simpa using raises_exec_iff consequence t
    | false => simpa using raises_exec_iff alternative t
  | .missing =>
    refine iff_of_false ?_ not_stops_nil
    rintro ⟨t, h⟩
    cases h

/-- So does the execution of statements one after the other. -/
lemma raises_execAll_iff (body : List Stmt) (s : Store) :
    Raises name line (execAll sink body s) ↔
      Stops name line (Program.visits sink body (some s)) := by
  match body with
  | [] => exact iff_of_false not_raises_of_ok not_stops_nil
  | stmt :: rest =>
    rw [execAll, raises_bind, Program.visits, stops_append, raises_exec_iff stmt, Option.bind_some,
      stops_next? (Program.not_mem_visits_none rest)]
    refine or_congr Iff.rfl
      (exists_congr fun _ => exists_congr fun t => and_congr_right fun _ => ?_)
    exact raises_execAll_iff rest t

end

end LoxScript
