import LoxScript.Proofs.Execution.Result

/-!
# Programs one after the other

Running two programs as one is running the first and then, if it does not fail, the second with the
variables that the first has left.  The output of the second comes after that of the first; as long
as the sink accepts everything, it does not depend on what has been written before.
-/

namespace LoxScript

/-! ### Earlier output -/

/-- The result with the given chunks written before all others. -/
def writtenBefore {α : Type} (earlier : List Bytes) :
    EStateM.Result RuntimeError Store α → EStateM.Result RuntimeError Store α
  | .ok a s => .ok a { s with written := s.written ++ earlier }
  | .error e s => .error e { s with written := s.written ++ earlier }

/-- Earlier output makes no difference to what the computation does. -/
def Oblivious {α : Type} (x : Exec α) : Prop :=
  ∀ s earlier, x { s with written := s.written ++ earlier } = writtenBefore earlier (x s)

section Oblivious

variable {α β : Type}

lemma oblivious_pure (a : α) : Oblivious (pure a : Exec α) := fun _ _ => rfl

lemma oblivious_throw (e : RuntimeError) : Oblivious (throw e : Exec α) := fun _ _ => rfl

lemma Oblivious.bind {x : Exec α} {f : α → Exec β} (hx : Oblivious x)
    (hf : ∀ a, Oblivious (f a)) : Oblivious (x >>= f) := by
  intro s earlier
  have hfirst := hx s earlier
  cases hresult : x s with
  | ok a t =>
    rw [hresult] at hfirst
    rw [bind_of_result_ok hfirst, bind_of_result_ok hresult]
    exact hf a t earlier
  | error e t =>
    rw [hresult] at hfirst
    rw [bind_of_result_error hfirst, bind_of_result_error hresult]
    rfl

lemma oblivious_evaluate (e : Expr) : Oblivious (Exec.evaluate e) := by
  intro s earlier
  unfold Exec.evaluate
  dsimp only
  cases LoxScript.eval e s.chain <;> rfl

lemma oblivious_write (chunk : Bytes) : Oblivious (Exec.write .unlimited chunk) :=
  fun _ _ => rfl

lemma oblivious_define (name : Bytes) (v : Value) : Oblivious (Exec.define name v) :=
  fun _ _ => rfl

lemma Oblivious.inNewScope {body : Exec Unit} (h : Oblivious body) :
    Oblivious (Exec.inNewScope body) := by
  intro s earlier
  have hbody := h { s with chain := s.chain.enter } earlier
  unfold Exec.inNewScope
  dsimp only at hbody ⊢
  rw [hbody]
  cases body { s with chain := s.chain.enter } <;> rfl

mutual

lemma oblivious_exec (stmt : Stmt) : Oblivious (exec .unlimited stmt) := by
  match stmt with
  | .expression _ e =>
    rw [exec]
    exact (oblivious_evaluate e).bind fun _ => oblivious_pure _
  | .print _ e =>
    rw [exec]
    exact (oblivious_evaluate e).bind fun v => oblivious_write _
  | .var _ name none =>
    rw [exec]
    exact oblivious_define name.lexeme .nil
  | .var _ name (some e) =>
    rw [exec]
    exact (oblivious_evaluate e).bind fun v => oblivious_define name.lexeme v
  | .block _ body =>
    rw [exec]
    exact (oblivious_execAll body).inNewScope
  | .ifThen _ condition consequence =>
    rw [exec]
    refine (oblivious_evaluate condition).bind fun c => ?_
    cases c.isTruthy with
    | true => exact oblivious_exec consequence
    | false => exact oblivious_pure _
  | .ifElse _ condition consequence alternative =>
    rw [exec]
    refine (oblivious_evaluate condition).bind fun c => ?_
    cases c.isTruthy with
    | true => exact oblivious_exec consequence
    | false => exact oblivious_exec alternative
  | .missing =>
    rw [exec]
    exact oblivious_throw _

lemma oblivious_execAll (p : List Stmt) : Oblivious (execAll .unlimited p) := by
  match p with
  | [] =>
    rw [execAll]
    exact oblivious_pure _
  | stmt :: rest =>
    rw [execAll]
    exact (oblivious_exec stmt).bind fun _ => oblivious_execAll rest

end

end Oblivious

/-! ### Programs in sequence -/

/-- What two runs leave behind, the second of which took over from the first. -/
def Outcome.andThen (first later : Outcome) : Outcome :=
  ⟨later.chain, first.chunks ++ later.chunks, later.failure⟩

lemma Outcome.output_andThen (first later : Outcome) :
    (first.andThen later).output = first.output ++ later.output :=
  List.flatten_append

/-- After statements that succeed, the others are executed. -/
lemma execAll_append_of_ok {sink : Sink} {p : List Stmt} {s t : Store}
    (h : execAll sink p s = .ok () t) (q : List Stmt) :
    execAll sink (p ++ q) s = execAll sink q t := by
  induction p generalizing s with
  | nil =>
    cases h
    rfl
  | cons stmt rest ih =>
    rw [execAll, bind_eq_ok_iff] at h
    obtain ⟨a, u, hstmt, hrest⟩ := h
    rw [List.cons_append, execAll, bind_of_result_ok hstmt]
    exact ih hrest

/-- Statements that fail keep the others from being executed. -/
lemma execAll_append_of_error {sink : Sink} {p : List Stmt} {s t : Store} {e : RuntimeError}
    (h : execAll sink p s = .error e t) (q : List Stmt) :
    execAll sink (p ++ q) s = .error e t := by
  induction p generalizing s with
  | nil => cases h
  | cons stmt rest ih =>
    rw [execAll, bind_eq_error_iff] at h
    rw [List.cons_append, execAll]
    rcases h with hstmt | ⟨a, u, hstmt, hrest⟩
    · exact bind_of_result_error hstmt
    · rw [bind_of_result_ok hstmt]
      exact ih hrest

lemma run_append_of_failure {sink : Sink} {p : Program} {c : Chain} {e : RuntimeError}
    (h : (run sink p c).failure = some e) (q : Program) : run sink (p ++ q) c = run sink p c := by
  obtain ⟨t, ht⟩ := failure_run_eq_some_iff.1 h
  unfold run
  rw [execAll_append_of_error ht, ht]

lemma failure_run_eq_none_iff {sink : Sink} {p : Program} {c : Chain} :
    (run sink p c).failure = none ↔ ∃ t, execAll sink p ⟨c, []⟩ = .ok () t := by
  unfold run Outcome.ofResult
  cases execAll sink p ⟨c, []⟩ with
  | ok a s => simp
  | error err s => simp

/-- A program that does not fail hands its variables on to the next one. -/
theorem run_append {p : Program} {c : Chain} (h : (run .unlimited p c).failure = none)
    (q : Program) :
    run .unlimited (p ++ q) c =
      (run .unlimited p c).andThen (run .unlimited q (run .unlimited p c).chain) := by
  obtain ⟨t, ht⟩ := failure_run_eq_none_iff.1 h
  have hlater := oblivious_execAll q ⟨t.chain, []⟩ t.written
  rw [List.nil_append] at hlater
  unfold run
  rw [execAll_append_of_ok ht, ht, hlater]
  dsimp only [Outcome.ofResult]
  cases execAll .unlimited q ⟨t.chain, []⟩ with
  | ok a u => simp [writtenBefore, Outcome.andThen]
  | error e u => simp [writtenBefore, Outcome.andThen]

/-- A program that fails does so in one of its statements, after those before it have succeeded. -/
lemma exists_failing_statement {sink : Sink} {p : Program} {c : Chain} {e : RuntimeError}
    (h : (run sink p c).failure = some e) :
    ∃ done stmt rest, p = done ++ stmt :: rest ∧ (run sink done c).failure = none ∧
      run sink (done ++ [stmt]) c = run sink p c := by
  suffices hsplit : ∀ s t, execAll sink p s = .error e t →
      ∃ done stmt rest u, p = done ++ stmt :: rest ∧ execAll sink done s = .ok () u ∧
        exec sink stmt u = .error e t by
    obtain ⟨t, ht⟩ := failure_run_eq_some_iff.1 h
    obtain ⟨done, stmt, rest, u, hp, hdone, hstmt⟩ := hsplit _ t ht
    have hboth : execAll sink (done ++ [stmt]) ⟨c, []⟩ = .error e t := by
      rw [execAll_append_of_ok hdone, execAll, bind_of_result_error hstmt]
    refine ⟨done, stmt, rest, hp, failure_run_eq_none_iff.2 ⟨u, hdone⟩, ?_⟩
    unfold run
    rw [hboth, ht]
  clear h
  induction p with
  | nil => exact nofun
  | cons stmt rest ih =>
    intro s t h
    rw [execAll, bind_eq_error_iff] at h
    rcases h with hstmt | ⟨a, u, hstmt, hrest⟩
    · exact ⟨[], stmt, rest, s, rfl, rfl, hstmt⟩
    · obtain ⟨done, failing, later, v, rfl, hdone, hfailing⟩ := ih u t hrest
      refine ⟨stmt :: done, failing, later, v, rfl, ?_, hfailing⟩
      rw [execAll, bind_of_result_ok hstmt, hdone]

end LoxScript
