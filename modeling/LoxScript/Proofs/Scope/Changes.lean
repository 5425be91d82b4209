import LoxScript.Proofs.Execution.Result
import LoxScript.Proofs.Scope.Lookup

/-!
# What a run does to the scopes

A run changes the scopes it sees in two ways only: an assignment gives a bound name another value,
wherever on the chain it is bound, and a declaration binds a name in the innermost scope.
`Chain.Develops` is the relation between a chain and what becomes of it in this way, together with
the names that were declared.

Every expression and every statement develops its chain, also when it fails in the middle, and also
when the tree was put together by hand.  A statement that fails has declared nothing, and what a
block declares is gone when the block is left.  All that is said elsewhere about the scopes of a run
is read off this relation.
-/

namespace LoxScript

namespace Scope

/-- The bindings stand in the order of their names, and no name is bound twice. -/
def Sorted (s : Scope) : Prop :=
  s.bindings.Pairwise fun a b => a.1 < b.1

lemma mem_insert {name : Bytes} {v : Value} {bindings : List (Bytes × Value)}
    {b : Bytes × Value} (h : b ∈ insert name v bindings) : b = (name, v) ∨ b ∈ bindings := by
  induction bindings with
  | nil => exact .inl (List.mem_singleton.1 h)
  | cons first rest ih =>
    obtain ⟨other, w⟩ := first
    unfold insert at h
    split_ifs at h with hequal hless
    · rcases List.mem_cons.1 h with hb | hb
      · exact .inl hb
      · exact .inr (List.mem_cons_of_mem _ hb)
    · exact List.mem_cons.1 h
    · rcases List.mem_cons.1 h with hb | hb
      · exact .inr (hb ▸ List.mem_cons_self)
      · exact (ih hb).imp_right (List.mem_cons_of_mem _)

lemma Sorted.put {s : Scope} (h : s.Sorted) (name : Bytes) (v : Value) : (s.put name v).Sorted := by
  unfold Sorted Scope.put at *
  dsimp only
  generalize s.bindings = bindings at h
  induction bindings with
  | nil => exact List.pairwise_singleton _ _
  | cons first rest ih =>
    obtain ⟨other, w⟩ := first
    obtain ⟨hfirst, hrest⟩ := List.pairwise_cons.1 h
    unfold insert
    split_ifs with hequal hless
    · subst hequal
      exact List.pairwise_cons.2 ⟨hfirst, hrest⟩
    · refine List.pairwise_cons.2 ⟨fun b hb => ?_, h⟩
      rcases List.mem_cons.1 hb with rfl | hb
      · exact hless
      · exact List.lt_trans hless (hfirst b hb)
    · have hgreater : other < name := Std.lt_of_le_of_ne (List.not_lt.1 hless) (Ne.symm hequal)
      refine List.pairwise_cons.2 ⟨fun b hb => ?_, ih hrest⟩
      rcases mem_insert hb with rfl | hb
      · exact hgreater
      · exact hfirst b hb

end Scope

namespace Chain

/-- The second chain has come from the first by assignments and by declarations of the given names,
the latest first, in the innermost scope. -/
inductive Develops : List Bytes → Chain → Chain → Prop
  | refl (c : Chain) : Develops [] c c
  | assign {names : List Bytes} {c d e : Chain} {x : Bytes} {v : Value} :
      Develops names c d → d.assign? x v = some e → Develops names c e
  | define {names : List Bytes} {c d : Chain} (x : Bytes) (v : Value) :
      Develops names c d → Develops (x :: names) c (d.define x v)

lemma Develops.trans {names names' : List Bytes} {c d e : Chain} (h : Develops names c d)
    (h' : Develops names' d e) : Develops (names' ++ names) c e := by
  induction h' with
  | refl => exact h
  | assign _ hassign ih => exact (ih h).assign hassign
  | define x v _ ih => exact (ih h).define x v

/-- Assignments reach the outer scopes, declarations do not. -/
lemma Develops.inner {names : List Bytes} {s : Scope} {c d : Chain}
    (h : Develops names (.inner s c) d) : ∃ s' c', d = .inner s' c' ∧ Develops [] c c' := by
  generalize hstart : Chain.inner s c = start at h
  induction h with
  | refl => exact ⟨s, c, hstart.symm, .refl c⟩
  | @assign names _ _ e x v _ hassign ih =>
    obtain ⟨s', c', rfl, hc'⟩ := ih hstart
    unfold assign? at hassign
    split_ifs at hassign with hhas
    · cases hassign
      exact ⟨_, c', rfl, hc'⟩
    · obtain ⟨c'', hc'', rfl⟩ := Option.map_eq_some_iff.1 hassign
      exact ⟨s', c'', rfl, hc'.assign hc''⟩
  | define x v _ ih =>
    obtain ⟨s', c', rfl, hc'⟩ := ih hstart
    exact ⟨s'.put x v, c', rfl, hc'⟩

/-- Leaving a scope that was entered undoes its declarations. -/
lemma Develops.leave {names : List Bytes} {c d : Chain} (h : Develops names c.enter d) :
    Develops [] c d.leave := by
  obtain ⟨s', c', rfl, hc'⟩ := h.inner
  exact hc'

/-- A single scope stays a single scope, gets the names that were declared, and stays in order. -/
lemma Develops.root {names : List Bytes} {s : Scope} {d : Chain} (h : Develops names (.root s) d) :
    ∃ s', d = .root s' ∧ (∀ x, s'.has x = true ↔ x ∈ names ∨ s.has x = true) ∧
      (s.Sorted → s'.Sorted) := by
  generalize hstart : Chain.root s = start at h
  induction h with
  | refl => exact ⟨s, hstart.symm, by simp, id⟩
  | @assign names _ _ e x v _ hassign ih =>
    obtain ⟨s', rfl, hs', hsorted⟩ := ih hstart
    unfold assign? at hassign
    split_ifs at hassign with hhas
    cases hassign
    refine ⟨s'.put x v, rfl, fun y => ?_, fun hs => (hsorted hs).put x v⟩
    rw [Scope.has_put, ← hs' y]
    constructor
    · rintro (rfl | hy)
      · exact hhas
      · exact hy
    · exact .inr
  | @define names _ _ x v _ ih =>
    obtain ⟨s', rfl, hs', hsorted⟩ := ih hstart
    refine ⟨s'.put x v, rfl, fun y => ?_, fun hs => (hsorted hs).put x v⟩
    rw [Scope.has_put, hs' y, List.mem_cons, or_assoc]

end Chain

open Chain (Develops)

/-! ### Expressions -/

/-- What a computation leaves behind, whether it succeeds or fails. -/
def stateAfter {σ α : Type} : EStateM.Result RuntimeError σ α → σ
  | .ok _ s => s
  | .error _ s => s

/-- Only assignments change the chain, whatever the computation comes to. -/
def Assigns {α : Type} (x : Eval α) : Prop :=
  ∀ c, Develops [] c (stateAfter (x c))

lemma assigns_ofExcept (r : Except RuntimeError Value) : Assigns (Eval.ofExcept r) := by
  intro c
  cases r <;> exact .refl c

lemma Assigns.bind {α β : Type} {x : Eval α} {f : α → Eval β} (hx : Assigns x)
    (hf : ∀ a, Assigns (f a)) : Assigns (x >>= f) := by
  intro c
  have hfirst := hx c
  cases hresult : x c with
  | ok a d =>
    rw [hresult] at hfirst
    rw [bind_of_result_ok hresult]
    exact hfirst.trans (hf a d)
  | error e d =>
    rw [hresult] at hfirst
    rw [bind_of_result_error hresult]
    exact hfirst

/-- An evaluation makes no bindings. -/
lemma assigns_eval (e : Expr) : Assigns (eval e) := by
  induction e with
  | literal token value => exact assigns_ofExcept _
  | grouping paren inner ih => exact ih
  | unary operator text right ih =>
    rw [eval]
    exact ih.bind fun r => assigns_ofExcept _
  | binary operator text left right ihl ihr =>
    rw [eval]
    exact ihl.bind fun l => ihr.bind fun r => assigns_ofExcept _
  | name token =>
    intro c
    rw [eval_name]
    cases c.get? token.lexeme <;> exact .refl c
  | assign token value ih =>
    intro c
    have hvalue := ih c
    cases hresult : eval value c with
    | error err d =>
      rw [hresult] at hvalue
      rw [eval, bind_of_result_error hresult]
      exact hvalue
    | ok v d =>
      rw [hresult] at hvalue
      rw [eval_assign_of_ok hresult]
      cases hassign : d.assign? token.lexeme v with
      | none => exact hvalue
      | some d' => exact hvalue.assign hassign
  | missing => exact fun c => .refl c

lemma develops_of_evaluate_ok {e : Expr} {s t : Store} {v : Value}
    (h : Exec.evaluate e s = .ok v t) : Develops [] s.chain t.chain := by
  obtain ⟨c, hc, rfl⟩ := Exec.evaluate_eq_ok_iff.1 h
  have hassigns := assigns_eval e s.chain
  rwa [hc] at hassigns

lemma develops_of_evaluate_error {e : Expr} {s t : Store} {err : RuntimeError}
    (h : Exec.evaluate e s = .error err t) : Develops [] s.chain t.chain := by
  obtain ⟨c, hc, rfl⟩ := Exec.evaluate_eq_error_iff.1 h
  have hassigns := assigns_eval e s.chain
  rwa [hc] at hassigns

/-! ### Statements -/

/-- The names that a statement may declare in the scope it stands in. -/
def Stmt.mayDeclare : Stmt → List Bytes
  | .var _ name _ => [name.lexeme]
  | .ifThen _ _ consequence => consequence.mayDeclare
  | .ifElse _ _ consequence alternative => consequence.mayDeclare ++ alternative.mayDeclare
  | .expression .. | .print .. | .block .. | .missing => []

/-- The computation declares some of the names and changes nothing else but values; when it fails,
it has declared nothing. -/
def Declares (names : List Bytes) (x : Exec Unit) : Prop :=
  ∀ s, match x s with
    | .ok _ t => ∃ declared, declared ⊆ names ∧ Develops declared s.chain t.chain
    | .error _ t => Develops [] s.chain t.chain

section Declares

variable {names : List Bytes}

lemma Declares.mono {names' : List Bytes} {x : Exec Unit} (h : Declares names x)
    (hsub : names ⊆ names') : Declares names' x := by
  intro s
  have hs := h s
  cases hx : x s with
  | error e t =>
    rw [hx] at hs
    exact hs
  | ok a t =>
    rw [hx] at hs
    obtain ⟨declared, hdeclared, hdevelops⟩ := hs
    exact ⟨declared, List.Subset.trans hdeclared hsub, hdevelops⟩

lemma declares_pure : Declares names (pure ()) :=
  fun s => ⟨[], List.nil_subset _, .refl s.chain⟩

lemma declares_write (sink : Sink) (chunk : Bytes) : Declares names (Exec.write sink chunk) := by
  intro s
  unfold Exec.write
  cases sink.refuses s.written chunk with
  | none => exact ⟨[], List.nil_subset _, .refl s.chain⟩
  | some reason => exact .refl s.chain

lemma declares_define (x : Bytes) (v : Value) : Declares [x] (Exec.define x v) :=
  fun s => ⟨[x], List.Subset.refl _, (Develops.refl s.chain).define x v⟩

/-- What comes after an expression decides which names are declared. -/
lemma declares_evaluate_bind (e : Expr) {f : Value → Exec Unit} (h : ∀ v, Declares names (f v)) :
    Declares names (Exec.evaluate e >>= f) := by
  intro s
  cases heval : Exec.evaluate e s with
  | error err t =>
    rw [bind_of_result_error heval]
    exact develops_of_evaluate_error heval
  | ok v t =>
    have hvalue := develops_of_evaluate_ok heval
    have hrest := h v t
    rw [bind_of_result_ok heval]
    cases hf : f v t with
    | error err u =>
      rw [hf] at hrest
      exact hvalue.trans hrest
    | ok a u =>
      rw [hf] at hrest
      obtain ⟨declared, hdeclared, hdevelops⟩ := hrest
      refine ⟨declared, hdeclared, ?_⟩
      have htrans := hvalue.trans hdevelops
      rwa [List.append_nil] at htrans

/-- Nothing that is declared in a scope of its own is left. -/
lemma declares_inNewScope {body : Exec Unit}
    (h : ∀ s, ∃ declared, Develops declared s.chain (stateAfter (body s)).chain) :
    Declares [] (Exec.inNewScope body) := by
  intro s
  unfold Exec.inNewScope
  obtain ⟨declared, hbody⟩ := h { s with chain := s.chain.enter }
  cases hresult : body { s with chain := s.chain.enter } with
  | ok a t =>
    rw [hresult] at hbody
    exact ⟨[], List.Subset.refl _, hbody.leave⟩
  | error e t =>
    rw [hresult] at hbody
    exact hbody.leave

end Declares

mutual

/-- A statement declares at most the names that it may declare. -/
theorem declares_exec (sink : Sink) (stmt : Stmt) : Declares stmt.mayDeclare (exec sink stmt) := by
  match stmt with
  | .expression _ e =>
    rw [exec]
    exact declares_evaluate_bind e fun _ => declares_pure
  | .print _ e =>
    rw [exec]
    exact declares_evaluate_bind e fun v => declares_write sink _
  | .var _ name none =>
    rw [exec]
    exact declares_define name.lexeme .nil
  | .var _ name (some e) =>
    rw [exec]
    exact declares_evaluate_bind e fun v => declares_define name.lexeme v
  | .block _ body =>
    rw [exec]
    exact declares_inNewScope (exists_develops_execAll sink body)
  | .ifThen _ condition consequence =>
    rw [exec]
    refine declares_evaluate_bind condition fun c => ?_
    cases c.isTruthy with
    | true => exact declares_exec sink consequence
    | false => exact declares_pure
  | .ifElse _ condition consequence alternative =>
    rw [exec]
    refine declares_evaluate_bind condition fun c => ?_
    cases c.isTruthy with
    | true => exact (declares_exec sink consequence).mono (List.subset_append_left _ _)
    | false => exact (declares_exec sink alternative).mono (List.subset_append_right _ _)
  | .missing => exact fun s => .refl s.chain

/-- Statements one after the other develop the chain, and what was declared before a failure
stays. -/
theorem exists_develops_execAll (sink : Sink) (body : List Stmt) (s : Store) :
    ∃ declared, Develops declared s.chain (stateAfter (execAll sink body s)).chain := by
  match body with
  | [] => exact ⟨[], .refl s.chain⟩
  | stmt :: rest =>
    have hstmt := declares_exec sink stmt s
    rw [execAll]
    cases hresult : exec sink stmt s with
    | error e t =>
      rw [hresult] at hstmt
      rw [bind_of_result_error hresult]
      exact ⟨[], hstmt⟩
    | ok a t =>
      rw [hresult] at hstmt
      obtain ⟨declared, -, hfirst⟩ := hstmt
      obtain ⟨others, hrest⟩ := exists_develops_execAll sink rest t
      rw [bind_of_result_ok hresult]
      exact ⟨others ++ declared, hfirst.trans hrest⟩

end

/-- A declaration that is carried out declares its name. -/
lemma develops_of_exec_var {sink : Sink} {keyword name : Token} {initial : Option Expr}
    {s t : Store} (h : exec sink (.var keyword name initial) s = .ok () t) :
    Develops [name.lexeme] s.chain t.chain := by
  cases initial with
  | none =>
    rw [exec] at h
    cases h
    exact (Develops.refl s.chain).define name.lexeme .nil
  | some e =>
    rw [exec] at h
    obtain ⟨v, u, heval, hdefine⟩ := bind_eq_ok_iff.1 h
    cases hdefine
    exact (develops_of_evaluate_ok heval).define name.lexeme v

end LoxScript
