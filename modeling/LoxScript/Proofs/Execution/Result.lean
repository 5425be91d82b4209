import Mathlib.Tactic.Lemma
import LoxScript.Execution

/-!
# What computations in sequence come to

A run is a sequence of computations, each of which ends with a value or with a failure and keeps
what was done either way.  The lemmas here say when a sequence ends in one way or the other, so that
the proofs about execution never open the sequence itself.
-/

namespace LoxScript

section Sequence

variable {σ α β : Type} {x : EStateM RuntimeError σ α} {f : α → EStateM RuntimeError σ β}
  {s t : σ} {e : RuntimeError}

/-- After a first computation that succeeds, the second one decides. -/
lemma bind_of_result_ok {a : α} (h : x s = .ok a t) : (x >>= f) s = f a t := by
  change EStateM.bind x f s = _
  unfold EStateM.bind
  rw [h]

/-- A first computation that fails decides alone. -/
lemma bind_of_result_error (h : x s = .error e t) : (x >>= f) s = .error e t := by
  change EStateM.bind x f s = _
  unfold EStateM.bind
  rw [h]

/-- A sequence succeeds when both of its parts do, one after the other. -/
lemma bind_eq_ok_iff {b : β} :
    (x >>= f) s = .ok b t ↔ ∃ a u, x s = .ok a u ∧ f a u = .ok b t := by
  constructor
  · intro h
    cases hx : x s with
    | error e u =>
      rw [bind_of_result_error hx] at h
      cases h
    | ok a u =>
      rw [bind_of_result_ok hx] at h
      exact ⟨a, u, rfl, h⟩
  · rintro ⟨a, u, hx, hf⟩
    rw [bind_of_result_ok hx, hf]

/-- A sequence fails when its first part does, or the second one after it. -/
lemma bind_eq_error_iff :
    (x >>= f) s = .error e t ↔
      x s = .error e t ∨ ∃ a u, x s = .ok a u ∧ f a u = .error e t := by
  constructor
  · intro h
    cases hx : x s with
    | error e' u =>
      rw [bind_of_result_error hx] at h
      cases h
      exact .inl rfl
    | ok a u =>
      rw [bind_of_result_ok hx] at h
      exact .inr ⟨a, u, rfl, h⟩
  · rintro (hx | ⟨a, u, hx, hf⟩)
    · exact bind_of_result_error hx
    · rw [bind_of_result_ok hx, hf]

end Sequence

/-! ### Names -/

/-- The value of a name is looked up, and nothing changes. -/
lemma eval_name (token : Token) (c : Chain) :
    eval (.name token) c =
      match c.get? token.lexeme with
      | some v => .ok v c
      | none => .error (.undefined token.lexeme token.line) c := by
  rw [eval, bind_of_result_ok (x := get) (a := c) (t := c) rfl]
  cases c.get? token.lexeme <;> rfl

/-- Once its value is known, an assignment changes a binding or fails for want of one. -/
lemma eval_assign_of_ok {token : Token} {value : Expr} {c d : Chain} {v : Value}
    (h : eval value c = .ok v d) :
    eval (.assign token value) c =
      match d.assign? token.lexeme v with
      | some d' => .ok v d'
      | none => .error (.undefined token.lexeme token.line) d := by
  rw [eval, bind_of_result_ok h, bind_of_result_ok (x := get) (a := d) (t := d) rfl]
  cases d.assign? token.lexeme v <;> rfl

/-! ### Expressions within statements -/

namespace Exec

variable {e : Expr} {s t : Store}

lemma evaluate_eq_ok_iff {v : Value} :
    evaluate e s = .ok v t ↔ ∃ c, eval e s.chain = .ok v c ∧ t = { s with chain := c } := by
  unfold evaluate
  cases eval e s.chain with
  | error err c => simp
  | ok w c =>
    simp only [EStateM.Result.ok.injEq]
    constructor
    · rintro ⟨rfl, rfl⟩
      exact ⟨c, ⟨rfl, rfl⟩, rfl⟩
    · rintro ⟨c', ⟨rfl, rfl⟩, rfl⟩
      exact ⟨rfl, rfl⟩

lemma evaluate_eq_error_iff {err : RuntimeError} :
    evaluate e s = .error err t ↔
      ∃ c, eval e s.chain = .error err c ∧ t = { s with chain := c } := by
  unfold evaluate
  cases eval e s.chain with
  | ok w c => simp
  | error err' c =>
    simp only [EStateM.Result.error.injEq]
    constructor
    · rintro ⟨rfl, rfl⟩
      exact ⟨c, ⟨rfl, rfl⟩, rfl⟩
    · rintro ⟨c', ⟨rfl, rfl⟩, rfl⟩
      exact ⟨rfl, rfl⟩

end Exec

/-! ### What a run leaves behind -/

lemma failure_run_eq_some_iff {sink : Sink} {p : Program} {c : Chain} {e : RuntimeError} :
    (run sink p c).failure = some e ↔ ∃ s, execAll sink p ⟨c, []⟩ = .error e s := by
  unfold run Outcome.ofResult
  cases execAll sink p ⟨c, []⟩ with
  | ok a s => simp
  | error err s => simp

end LoxScript
