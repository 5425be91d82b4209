import LoxScript.Script
import LoxScript.Proofs.Execution.Result
import LoxScript.Proofs.Grammar.WellFormed

/-!
# What a run can fail with

A tree put together by hand can fail for its holes, its unknown operators and its literals without a
value.  The program of an accepted script cannot: it completes, or it fails because a name of the
script is not bound or an operator of the script meets values of the wrong types, or because the
sink refuses the output.  The line of the error is then that of a token of the script.

From this the exit code of a script can be told: which of the four codes it is depends only on
whether the script is accepted and on which kind of failure its run ends with.
-/

namespace LoxScript

open Grammar

/-- The errors that a name or an operator among the tokens is to blame for, or the sink. -/
inductive Blamed (ts : List Token) (sink : Sink) : RuntimeError → Prop
  /-- The name of the token is not bound. -/
  | undefined {t : Token} : t ∈ ts → Blamed ts sink (.undefined t.lexeme t.line)
  /-- The operand is no number. -/
  | operand {operator : Token} {got : ValueType} :
      operator ∈ ts → Blamed ts sink (.type operator (.operand got))
  /-- The operands are not both numbers. -/
  | operands {operator : Token} {left right : ValueType} :
      operator ∈ ts → Blamed ts sink (.type operator (.operands left right))
  /-- The operands are neither two numbers nor two strings. -/
  | addends {operator : Token} {left right : ValueType} :
      operator ∈ ts → Blamed ts sink (.type operator (.addends left right))
  /-- The sink refused a chunk. -/
  | refused {written : List Bytes} {chunk reason : Bytes} :
      sink.refuses written chunk = some reason → Blamed ts sink (.refused reason)

/-- Whenever the computation fails, it is with an error of the given kind. -/
def FailsOnly {σ α : Type} (P : RuntimeError → Prop) (x : EStateM RuntimeError σ α) : Prop :=
  ∀ ⦃s e t⦄, x s = .error e t → P e

section FailsOnly

variable {σ α β : Type} {P : RuntimeError → Prop} {x : EStateM RuntimeError σ α}
  {f : α → EStateM RuntimeError σ β}

lemma failsOnly_pure (a : α) : FailsOnly P (pure a : EStateM RuntimeError σ α) := by
  intro s e t h
  cases h

lemma failsOnly_throw {e : RuntimeError} (he : P e) :
    FailsOnly P (throw e : EStateM RuntimeError σ α) := by
  intro s e' t h
  cases h
  exact he

lemma FailsOnly.bind (hx : FailsOnly P x) (hf : ∀ a, FailsOnly P (f a)) :
    FailsOnly P (x >>= f) := by
  intro s e t h
  rcases bind_eq_error_iff.1 h with hfirst | ⟨a, u, -, hsecond⟩
  · exact hx hfirst
  · exact hf a hsecond

lemma failsOnly_ofExcept {r : Except RuntimeError Value} (h : ∀ e, r = .error e → P e) :
    FailsOnly P (Eval.ofExcept r) := by
  cases r with
  | ok v => exact failsOnly_pure v
  | error e => exact failsOnly_throw (h e rfl)

end FailsOnly

variable {ts : List Token} {sink : Sink}

/-! ### Operators -/

/-- An operator that exists can only meet an operand of the wrong type. -/
lemma blamed_of_applyUnary {operator : Token} (hmem : operator ∈ ts)
    (hkind : operator.kind ∈ unaryOperators) {right : Value} {e : RuntimeError}
    (h : applyUnary operator right = .error e) : Blamed ts sink e := by
  unfold applyUnary at h
  rcases List.mem_pair.1 hkind with hbang | hminus
  · rw [hbang] at h
    cases h
  · rw [hminus] at h
    cases right with
    | number x => cases h
    | nil | boolean | string =>
      cases h
      exact .operand hmem

lemma blamed_of_add {operator : Token} (hmem : operator ∈ ts) {left right : Value}
    {e : RuntimeError} (h : add operator left right = .error e) : Blamed ts sink e := by
  unfold add at h
  split at h
  · cases h
  · cases h
  · cases h
    exact .addends hmem

/-- Every operator of the four levels has a meaning for two numbers, or for any two values. -/
lemma exists_applyNumeric {operator : Token} {l : Level} (hkind : operator.kind ∈ l.operators)
    (hplus : operator.kind ≠ .sign .plus) (hequal : operator.kind ≠ .sign .equalEqual)
    (hdiffer : operator.kind ≠ .sign .bangEqual) (x y : Float) :
    ∃ v, applyNumeric operator x y = .ok v := by
  unfold applyNumeric
  generalize operator.kind = kind at *
  cases l <;>
    simp only [Level.operators, Level.signs, List.map_cons, List.map_nil, List.mem_cons,
      List.not_mem_nil, or_false] at hkind <;>
    rcases hkind with rfl | rfl | rfl | rfl <;>
    first | exact ⟨_, rfl⟩ | contradiction

lemma blamed_of_applyBinary {operator : Token} (hmem : operator ∈ ts) {l : Level}
    (hkind : operator.kind ∈ l.operators) {left right : Value} {e : RuntimeError}
    (h : applyBinary operator left right = .error e) : Blamed ts sink e := by
  unfold applyBinary at h
  split at h
  case h_1 => cases h
  case h_2 => cases h
  case h_3 => exact blamed_of_add hmem h
  case h_4 hequal hdiffer hplus =>
    split at h
    case h_1 x y =>
      obtain ⟨v, hv⟩ := exists_applyNumeric hkind hplus hequal hdiffer x y
      rw [hv] at h
      cases h
    case h_2 =>
      cases h
      exact .operands hmem

/-! ### Expressions -/

/-- A well-formed expression fails only for its names and operators. -/
lemma failsOnly_eval {e : Expr} (h : e.WellFormed ts) : FailsOnly (Blamed ts sink) (eval e) := by
  induction e with
  | literal token value =>
    obtain ⟨v, hv⟩ := h
    rw [eval, hv]
    exact failsOnly_pure v
  | grouping paren inner ih => exact ih h
  | unary operator text right ih =>
    obtain ⟨⟨hmem, hkind⟩, hright⟩ := h
    rw [eval]
    exact (ih hright).bind fun r =>
      failsOnly_ofExcept fun e he => blamed_of_applyUnary hmem hkind he
  | binary operator text left right ihl ihr =>
    obtain ⟨⟨hmem, l, hkind⟩, hleft, hright⟩ := h
    rw [eval]
    exact (ihl hleft).bind fun v => (ihr hright).bind fun w =>
      failsOnly_ofExcept fun e he => blamed_of_applyBinary hmem hkind he
  | name token =>
    intro c e c' heval
    rw [eval_name] at heval
    cases hget : c.get? token.lexeme with
    | some v =>
      rw [hget] at heval
      cases heval
    | none =>
      rw [hget] at heval
      cases heval
      exact .undefined h
  | assign token value ih =>
    obtain ⟨hmem, hvalue⟩ := h
    intro c e c' heval
    cases hv : eval value c with
    | error err d =>
      rw [eval, bind_of_result_error hv] at heval
      cases heval
      exact ih hvalue hv
    | ok v d =>
      rw [eval_assign_of_ok hv] at heval
      cases hassign : d.assign? token.lexeme v with
      | some d' =>
        rw [hassign] at heval
        cases heval
      | none =>
        rw [hassign] at heval
        cases heval
        exact .undefined hmem
  | missing => exact h.elim

lemma failsOnly_evaluate {e : Expr} (h : e.WellFormed ts) :
    FailsOnly (Blamed ts sink) (Exec.evaluate e) := by
  intro s err t herror
  obtain ⟨c, heval, -⟩ := Exec.evaluate_eq_error_iff.1 herror
  exact failsOnly_eval h heval

/-! ### Statements -/

lemma failsOnly_write (chunk : Bytes) : FailsOnly (Blamed ts sink) (Exec.write sink chunk) := by
  intro s e t h
  unfold Exec.write at h
  cases hrefuses : sink.refuses s.written chunk with
  | none =>
    rw [hrefuses] at h
    cases h
  | some reason =>
    rw [hrefuses] at h
    cases h
    exact .refused hrefuses

lemma failsOnly_inNewScope {P : RuntimeError → Prop} {body : Exec Unit} (h : FailsOnly P body) :
    FailsOnly P (Exec.inNewScope body) := by
  intro s e t herror
  unfold Exec.inNewScope at herror
  cases hbody : body { s with chain := s.chain.enter } with
  | ok a u =>
    rw [hbody] at herror
    cases herror
  | error e' u =>
    rw [hbody] at herror
    cases herror
    exact h hbody

variable (sink) in
mutual

/-- A well-formed statement fails only for its names and operators, or because of the sink. -/
lemma failsOnly_exec (stmt : Stmt) (h : stmt.WellFormed ts) :
    FailsOnly (Blamed ts sink) (exec sink stmt) := by
  match stmt with
  | .expression _ e =>
    rw [exec]
    exact (failsOnly_evaluate h).bind fun v => failsOnly_pure _
  | .print _ e =>
    rw [exec]
    exact (failsOnly_evaluate h).bind fun v => failsOnly_write _
  | .var _ name none =>
    intro s e t herror
    cases herror
  | .var _ name (some e) =>
    rw [exec]
    refine (failsOnly_evaluate h).bind fun v => ?_
    intro s e t herror
    cases herror
  | .block _ body =>
    rw [exec]
    exact failsOnly_inNewScope (failsOnly_execAll body h)
  | .ifThen _ condition consequence =>
    obtain ⟨hcondition, hconsequence, -⟩ := h
    rw [exec]
    refine (failsOnly_evaluate hcondition).bind fun c => ?_
    cases c.isTruthy with
    | true => exact failsOnly_exec consequence hconsequence
    | false => exact failsOnly_pure ()
  | .ifElse _ condition consequence alternative =>
    obtain ⟨hcondition, ⟨hconsequence, -⟩, halternative, -⟩ := h
    rw [exec]
    refine (failsOnly_evaluate hcondition).bind fun c => ?_
    cases c.isTruthy with
    | true => exact failsOnly_exec consequence hconsequence
    | false => exact failsOnly_exec alternative halternative
  | .missing => exact h.elim

/-- So do well-formed statements one after the other. -/
lemma failsOnly_execAll (body : List Stmt) (h : Program.WellFormed ts body) :
    FailsOnly (Blamed ts sink) (execAll sink body) := by
  match body with
  | [] => exact failsOnly_pure ()
  | stmt :: rest =>
    rw [execAll]
    exact (failsOnly_exec stmt h.1).bind fun _ => failsOnly_execAll rest h.2

end

/-- The program of an accepted script fails only for the names and operators of the script, or
because of the sink. -/
lemma exists_blamed_of_run {mode : Mode} {source : Bytes} {p : Program}
    (h : parse mode source = .ok p) {c : Chain} {e : RuntimeError}
    (hfailure : (run sink p c).failure = some e) :
    ∃ tokens, scan source = .ok tokens ∧ Blamed tokens sink e := by
  obtain ⟨words, last, hscan, hp⟩ := exists_wellFormed_of_parse h
  obtain ⟨s, hs⟩ := failure_run_eq_some_iff.1 hfailure
  refine ⟨_, hscan, ?_⟩
  cases failsOnly_execAll sink p hp hs with
  | undefined ht => exact .undefined (List.mem_append_left _ ht)
  | operand ht => exact .operand (List.mem_append_left _ ht)
  | operands ht => exact .operands (List.mem_append_left _ ht)
  | addends ht => exact .addends (List.mem_append_left _ ht)
  | refused hrefuses => exact .refused hrefuses

/-! ### Exit codes -/

namespace Script

variable {settings : Settings} {source : Bytes}

variable (sink) in
/-- A script that is rejected writes nothing to the standard output. -/
lemma run_of_rejected {r : Rejection} (h : parse settings.mode source = .error r) :
    (Script.run settings sink source).exit = .badScript ∧
      (Script.run settings sink source).stdout = [] := by
  unfold parse at h
  unfold Script.run
  dsimp only
  rw [h]
  exact ⟨rfl, rfl⟩

/-- How an accepted script ends is told by the failure of its run. -/
lemma exit_of_accepted {p : Program} (h : parse settings.mode source = .ok p) :
    (Script.run settings sink source).exit =
      match (LoxScript.run sink p .fresh).failure with
      | none => .success
      | some e => if e.isProgramError then .programFailed else .ioFailed := by
  unfold parse at h
  unfold Script.run
  dsimp only
  rw [h]
  dsimp only
  cases (LoxScript.run sink p .fresh).failure with
  | none => rfl
  | some e =>
    unfold failureReport
    dsimp only
    split_ifs <;> rfl

end Script

/-- The program of an accepted script, read in either mode and run with any variables and any sink,
completes or fails with an error that a name or an operator of the script is to blame for, or the
sink.  So the exit code of a script is 65 exactly when the script is rejected, and then nothing is
written; otherwise 70 exactly for an undefined name or a type error, 74 exactly when the sink has
refused the output, and 0 exactly when the run completes. -/
theorem accepted_script_fails_only_for_blame (source : Bytes) (sink : Sink) :
    (∀ mode p c e, parse mode source = .ok p → (run sink p c).failure = some e →
        ∃ tokens, scan source = .ok tokens ∧ Blamed tokens sink e) ∧
      ∀ settings : Settings,
        ((Script.run settings sink source).exit.code = 65 ↔
            ∃ r, parse settings.mode source = .error r) ∧
        ((Script.run settings sink source).exit.code = 65 →
            (Script.run settings sink source).stdout = []) ∧
        ((Script.run settings sink source).exit.code = 70 ↔
            ∃ p e, parse settings.mode source = .ok p ∧ (run sink p .fresh).failure = some e ∧
              ((∃ name line, e = .undefined name line) ∨
                ∃ operator cause, e = .type operator cause)) ∧
        ((Script.run settings sink source).exit.code = 74 ↔
            ∃ p reason, parse settings.mode source = .ok p ∧
              (run sink p .fresh).failure = some (.refused reason)) ∧
        ((Script.run settings sink source).exit.code = 0 ↔
            ∃ p, parse settings.mode source = .ok p ∧ (run sink p .fresh).failure = none) := by
  refine ⟨fun mode p c e hp he => exists_blamed_of_run hp he, fun settings => ?_⟩
  cases hparse : parse settings.mode source with
  | error r =>
    obtain ⟨hexit, hstdout⟩ := Script.run_of_rejected sink hparse
    rw [hexit]
    simp [Exit.code, hstdout]
  | ok p =>
    rw [Script.exit_of_accepted hparse]
    cases hfailure : (run sink p .fresh).failure with
    | none => simp [Exit.code, hfailure]
    | some e =>
      -- Only the errors that something can be blamed for are left.
      obtain ⟨tokens, -, hblamed⟩ := exists_blamed_of_run hparse hfailure
      cases hblamed with
      | undefined | operand | operands | addends =>
        simp [Exit.code, RuntimeError.isProgramError, hfailure]
      | refused => simp [Exit.code, RuntimeError.isProgramError, hfailure]

end LoxScript
