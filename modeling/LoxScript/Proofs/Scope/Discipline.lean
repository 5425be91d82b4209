import LoxScript.Proofs.Scope.Changes
import LoxScript.Proofs.Scope.Forest

/-!
# Execution leaves the scopes in place

A run sees its scopes as a chain, and a chain says nothing about which scopes these are.  Here
programs are executed by an interpreter that works on a forest: it holds the number of the current
scope, makes a new scope for every block, moves into it and moves back on every way out.  Nothing
else ever moves it, and scopes are never taken away.

The interpreter does what the execution on chains does, seen from the current scope.  In addition it
can be asked what became of each scope of the forest, also of those that are not on the chain.  Both
are shown together: `Mirrors` relates a computation of the interpreter to one on chains and to what
it keeps of the forest.
-/

namespace LoxScript

/-- What an interpreter works on. -/
structure Interpreter where
  forest : Forest
  /-- The number of the current scope. -/
  current : Nat
  /-- The chunks written, the latest first. -/
  written : List Bytes

namespace Interpreter

/-- A computation of an interpreter; a failure keeps the changes. -/
abbrev Work := EStateM RuntimeError Interpreter

/-- A result that was computed without effects. -/
def ofExcept : Except RuntimeError Value → Work Value
  | .ok v => pure v
  | .error e => throw e

/-- The value of a name seen from the current scope. -/
def look (token : Token) : Work Value :=
  fun s =>
    match s.forest.get? s.current token.lexeme with
    | some v => .ok v s
    | none => .error (.undefined token.lexeme token.line) s

/-- Gives a name seen from the current scope another value. -/
def assign (token : Token) (v : Value) : Work Value :=
  fun s =>
    match s.forest.assign? s.current token.lexeme v with
    | some forest => .ok v { s with forest }
    | none => .error (.undefined token.lexeme token.line) s

/-- Declares a variable in the current scope. -/
def define (name : Bytes) (v : Value) : Work Unit :=
  fun s => .ok () { s with forest := s.forest.define s.current name v }

/-- Writes a chunk of output. -/
def write (sink : Sink) (chunk : Bytes) : Work Unit :=
  fun s =>
    match sink.refuses s.written chunk with
    | none => .ok () { s with written := chunk :: s.written }
    | some reason => .error (.refused reason) s

/-- Makes a scope within the current one and moves there. -/
def enter (s : Interpreter) : Interpreter :=
  let (forest, inside) := s.forest.add (some s.current)
  { s with forest, current := inside }

/-- Runs in a new scope, and moves back when the body has ended or failed. -/
def inNewScope (body : Work Unit) : Work Unit :=
  fun s =>
    match body s.enter with
    | .ok () t => .ok () { t with current := s.current }
    | .error e t => .error e { t with current := s.current }

/-- Evaluates an expression. -/
def evaluate : Expr → Work Value
  | .literal _ value => ofExcept (Value.ofLiteral value)
  | .grouping _ inner => evaluate inner
  | .unary operator _ right => do
    let r ← evaluate right
    ofExcept (applyUnary operator r)
  | .binary operator _ left right => do
    let l ← evaluate left
    let r ← evaluate right
    ofExcept (applyBinary operator l r)
  | .name token => look token
  | .assign token value => do
    let v ← evaluate value
    assign token v
  | .missing => throw .missingExpression

mutual

/-- Executes a statement. -/
def execute (sink : Sink) : Stmt → Work Unit
  | .expression _ e => do
    let _ ← evaluate e
  | .print _ e => do
    let v ← evaluate e
    write sink (Bytes.line v.inspect)
  | .var _ name none => define name.lexeme .nil
  | .var _ name (some e) => do
    let v ← evaluate e
    define name.lexeme v
  | .block _ body => inNewScope (interpret sink body)
  | .ifThen _ condition consequence => do
    let c ← evaluate condition
    if c.isTruthy then execute sink consequence
  | .ifElse _ condition consequence alternative => do
    let c ← evaluate condition
    if c.isTruthy then execute sink consequence else execute sink alternative
  | .missing => throw .missingStatement

/-- Executes statements one after the other. -/
def interpret (sink : Sink) : List Stmt → Work Unit
  | [] => pure ()
  | stmt :: rest => do
    execute sink stmt
    interpret sink rest

end

/-! ### What is kept of the scopes -/

/-- The interpreter is in the same scope, every scope is where it was, and only the current one may
have got further names. -/
structure Keeps (s t : Interpreter) : Prop where
  current : t.current = s.current
  size : s.forest.nodes.length ≤ t.forest.nodes.length
  outer : ∀ id < s.forest.nodes.length, t.forest.outer? id = s.forest.outer? id
  others : ∀ id < s.forest.nodes.length, id ≠ s.current →
    ∀ x, (t.forest.scope id).has x = (s.forest.scope id).has x
  grows : ∀ x, (s.forest.scope s.current).has x = true → (t.forest.scope s.current).has x = true

/-- Nothing but the values of names may have changed. -/
structure Still (s t : Interpreter) : Prop where
  current : t.current = s.current
  written : t.written = s.written
  size : t.forest.nodes.length = s.forest.nodes.length
  outer : ∀ id, t.forest.outer? id = s.forest.outer? id
  names : ∀ id x, (t.forest.scope id).has x = (s.forest.scope id).has x

variable {s t : Interpreter}

lemma Still.keeps (h : Still s t) : Keeps s t where
  current := h.current
  size := Nat.le_of_eq h.size.symm
  outer := fun id _ => h.outer id
  others := fun id _ _ => h.names id
  grows := fun x hx => (h.names s.current x).trans hx

/-- What is kept by each of two steps is kept by both, and there is always a current scope. -/
structure Lasting (R : Interpreter → Interpreter → Prop) : Prop where
  refl (s : Interpreter) : R s s
  trans {s t u : Interpreter} : s.current < s.forest.nodes.length → R s t → R t u → R s u
  placed {s t : Interpreter} :
    s.current < s.forest.nodes.length → R s t → t.current < t.forest.nodes.length

lemma lasting_keeps : Lasting Keeps where
  refl s := ⟨rfl, Nat.le_refl _, fun _ _ => rfl, fun _ _ _ _ => rfl, fun _ => id⟩
  trans {s t u} _ h h' := by
    refine ⟨h'.current.trans h.current, Nat.le_trans h.size h'.size, fun id hid => ?_,
      fun id hid hne x => ?_, fun x hx => ?_⟩
    · rw [h'.outer id (Nat.lt_of_lt_of_le hid h.size), h.outer id hid]
    · rw [h'.others id (Nat.lt_of_lt_of_le hid h.size) (h.current ▸ hne), h.others id hid hne]
    · have hlater := h'.grows x
      rw [h.current] at hlater
      exact hlater (h.grows x hx)
  placed hs h := h.current ▸ Nat.lt_of_lt_of_le hs h.size

lemma lasting_still : Lasting Still where
  refl s := ⟨rfl, rfl, rfl, fun _ => rfl, fun _ _ => rfl⟩
  trans _ h h' := ⟨h'.current.trans h.current, h'.written.trans h.written, h'.size.trans h.size,
    fun id => (h'.outer id).trans (h.outer id), fun id x => (h'.names id x).trans (h.names id x)⟩
  placed hs h := by
    rw [h.current, h.size]
    exact hs

/-- Changing the values of names in one scope leaves everything in its place. -/
lemma still_of_assign? {name : Bytes} {v : Value} {forest : Forest}
    (h : s.forest.assign? s.current name v = some forest) : Still s { s with forest } := by
  obtain ⟨k, -, hhas, rfl⟩ := Forest.exists_eq_update_of_assign? h
  refine ⟨rfl, rfl, Forest.length_update, fun id => Forest.outer?_update, fun id x => ?_⟩
  by_cases hid : id = k
  · rw [hid, Forest.scope_update_self (Forest.lt_length_of_has hhas), Scope.has_put_of_has hhas]
  · rw [Forest.scope_update_of_ne hid]

lemma keeps_define (hs : s.current < s.forest.nodes.length) (name : Bytes) (v : Value) :
    Keeps s { s with forest := s.forest.define s.current name v } := by
  rw [Forest.define_eq_update]
  refine ⟨rfl, Nat.le_of_eq Forest.length_update.symm, fun id _ => Forest.outer?_update,
    fun id _ hne x => ?_, fun x hx => ?_⟩
  · rw [Forest.scope_update_of_ne hne]
  · rw [Forest.scope_update_self hs, Scope.has_put]
    exact .inr hx

lemma current_enter (s : Interpreter) : s.enter.current = s.forest.nodes.length := rfl

lemma length_enter (s : Interpreter) :
    s.enter.forest.nodes.length = s.forest.nodes.length + 1 :=
  Forest.length_add _ _

/-- What is kept inside a new scope is kept outside of it, where not even names are added. -/
lemma Keeps.back (hs : s.current < s.forest.nodes.length) (h : Keeps s.enter t) :
    Keeps s { t with current := s.current } := by
  have hinside : ∀ id < s.forest.nodes.length, id < s.enter.forest.nodes.length := by
    intro id hid
    rw [length_enter]
    exact Nat.lt_succ_of_lt hid
  have hnames : ∀ id < s.forest.nodes.length, ∀ x,
      (t.forest.scope id).has x = (s.forest.scope id).has x := by
    intro id hid x
    rw [h.others id (hinside id hid) (Nat.ne_of_lt hid), enter, Forest.scope_add_of_lt hid]
  refine ⟨rfl, ?_, fun id hid => ?_, fun id hid _ => hnames id hid, fun x hx => ?_⟩
  · have hsize := h.size
    rw [length_enter] at hsize
    exact Nat.le_of_succ_le hsize
  · rw [h.outer id (hinside id hid), enter, Forest.outer?_add_of_lt hid]
  · exact (hnames s.current hs x).trans hx

/-! ### The view from the current scope -/

/-- What a run sees. -/
def view (s : Interpreter) : Store :=
  ⟨s.forest.chain s.current, s.written⟩

/-- Moving back from a scope is leaving it. -/
lemma view_back (hs : s.current < s.forest.nodes.length) (h : Keeps s.enter t) :
    view { t with current := s.current } = { t.view with chain := t.view.chain.leave } := by
  have hplaced : s.forest.nodes.length < s.enter.forest.nodes.length := by
    rw [length_enter]
    exact Nat.lt_succ_self _
  have houter : t.forest.outer? t.current = some s.current := by
    rw [h.current, current_enter, h.outer _ hplaced, enter, Forest.outer?_add_self]
  have hlt : s.current < t.current := by
    rw [h.current]
    exact hs
  rw [view, view, Forest.chain_of_outer? houter hlt]
  rfl

/-- The result as a run sees it. -/
def seen {α : Type} : EStateM.Result RuntimeError Interpreter α →
    EStateM.Result RuntimeError Store α
  | .ok a s => .ok a s.view
  | .error e s => .error e s.view

end Interpreter

/-- An evaluation in the course of execution. -/
def Exec.lift {α : Type} (x : Eval α) : Exec α :=
  fun s =>
    match x s.chain with
    | .ok a chain => .ok a { s with chain }
    | .error e chain => .error e { s with chain }

lemma Exec.lift_bind {α β : Type} (x : Eval α) (f : α → Eval β) :
    Exec.lift (x >>= f) = Exec.lift x >>= fun a => Exec.lift (f a) := by
  funext s
  cases hx : x s.chain with
  | error e c =>
    have hlift : Exec.lift x s = .error e { s with chain := c } := by rw [Exec.lift, hx]
    rw [bind_of_result_error hlift, Exec.lift, bind_of_result_error hx]
  | ok a c =>
    have hlift : Exec.lift x s = .ok a { s with chain := c } := by rw [Exec.lift, hx]
    rw [bind_of_result_ok hlift, Exec.lift, bind_of_result_ok hx]
    rfl

lemma Exec.evaluate_eq_lift (e : Expr) : Exec.evaluate e = Exec.lift (eval e) := by
  funext s
  unfold Exec.evaluate Exec.lift
  cases eval e s.chain <;> rfl

namespace Interpreter

/-- The interpreter does what is done on the chain, and keeps something of the forest. -/
def Mirrors {α : Type} (R : Interpreter → Interpreter → Prop) (x : Work α) (y : Exec α) : Prop :=
  ∀ s, s.current < s.forest.nodes.length → seen (x s) = y s.view ∧ R s (stateAfter (x s))

section Mirrors

variable {α β : Type} {R : Interpreter → Interpreter → Prop} {x : Work α} {y : Exec α}

lemma Mirrors.keeps (h : Mirrors Still x y) : Mirrors Keeps x y :=
  fun s hs => ⟨(h s hs).1, (h s hs).2.keeps⟩

lemma mirrors_pure (hR : Lasting R) (a : α) : Mirrors R (pure a) (pure a) :=
  fun s _ => ⟨rfl, hR.refl s⟩

lemma mirrors_throw (hR : Lasting R) (e : RuntimeError) :
    Mirrors R (throw e : Work α) (throw e) :=
  fun s _ => ⟨rfl, hR.refl s⟩

lemma Mirrors.bind {f : α → Work β} {g : α → Exec β} (hR : Lasting R) (h : Mirrors R x y)
    (hf : ∀ a, Mirrors R (f a) (g a)) : Mirrors R (x >>= f) (y >>= g) := by
  intro s hs
  obtain ⟨hseen, hkept⟩ := h s hs
  cases hx : x s with
  | error e t =>
    rw [hx] at hseen hkept
    rw [bind_of_result_error hx, bind_of_result_error hseen.symm]
    exact ⟨rfl, hkept⟩
  | ok a t =>
    rw [hx] at hseen hkept
    rw [bind_of_result_ok hx, bind_of_result_ok hseen.symm]
    obtain ⟨hlater, hkept'⟩ := hf a t (hR.placed hs hkept)
    exact ⟨hlater, hR.trans hs hkept hkept'⟩

lemma mirrors_ofExcept (r : Except RuntimeError Value) :
    Mirrors Still (ofExcept r) (Exec.lift (Eval.ofExcept r)) := by
  intro s _
  cases r <;> exact ⟨rfl, lasting_still.refl s⟩

lemma mirrors_look (token : Token) :
    Mirrors Still (look token) (Exec.lift (eval (.name token))) := by
  intro s _
  have hchain : s.forest.get? s.current token.lexeme = s.view.chain.get? token.lexeme := rfl
  unfold look Exec.lift
  rw [eval_name, hchain]
  cases s.view.chain.get? token.lexeme <;> exact ⟨rfl, lasting_still.refl s⟩

/-- The part of an assignment that comes after its value. -/
lemma mirrors_assign (token : Token) (v : Value) :
    Mirrors Still (assign token v) (Exec.lift do
      match (← get).assign? token.lexeme v with
      | some chain =>
        set chain
        pure v
      | none => throw (.undefined token.lexeme token.line)) := by
  intro s _
  have hchain : s.view.chain.assign? token.lexeme v =
      (s.forest.assign? s.current token.lexeme v).map (·.chain s.current) :=
    Forest.assign?_chain ..
  unfold assign Exec.lift
  rw [bind_of_result_ok (x := get) (a := s.view.chain) (t := s.view.chain) rfl, hchain]
  cases hassign : s.forest.assign? s.current token.lexeme v with
  | none => exact ⟨rfl, lasting_still.refl s⟩
  | some forest => exact ⟨rfl, still_of_assign? hassign⟩

lemma mirrors_write (sink : Sink) (chunk : Bytes) :
    Mirrors Keeps (write sink chunk) (Exec.write sink chunk) := by
  intro s _
  have hwritten : s.view.written = s.written := rfl
  unfold write Exec.write
  rw [hwritten]
  cases sink.refuses s.written chunk with
  | none => exact ⟨rfl, rfl, Nat.le_refl _, fun _ _ => rfl, fun _ _ _ _ => rfl, fun _ => id⟩
  | some reason => exact ⟨rfl, lasting_keeps.refl s⟩

lemma mirrors_define (name : Bytes) (v : Value) :
    Mirrors Keeps (define name v) (Exec.define name v) := by
  intro s hs
  refine ⟨?_, keeps_define hs name v⟩
  change EStateM.Result.ok () (⟨_, s.written⟩ : Store) = .ok () ⟨_, s.written⟩
  rw [Forest.chain_define hs]
  rfl

lemma Mirrors.inNewScope {body : Work Unit} {body' : Exec Unit} (h : Mirrors Keeps body body') :
    Mirrors Keeps (inNewScope body) (Exec.inNewScope body') := by
  intro s hs
  have hplaced : s.enter.current < s.enter.forest.nodes.length := by
    rw [current_enter, length_enter]
    exact Nat.lt_succ_self _
  have hview : s.enter.view = { s.view with chain := s.view.chain.enter } := by
    rw [view, current_enter, enter, Forest.chain_add_self hs]
    rfl
  obtain ⟨hseen, hkept⟩ := h s.enter hplaced
  rw [hview] at hseen
  unfold Interpreter.inNewScope Exec.inNewScope
  rw [← hseen]
  cases hresult : body s.enter with
  | ok a t =>
    rw [hresult] at hkept
    exact ⟨congrArg (EStateM.Result.ok ()) (view_back hs hkept), hkept.back hs⟩
  | error e t =>
    rw [hresult] at hkept
    exact ⟨congrArg (EStateM.Result.error e) (view_back hs hkept), hkept.back hs⟩

end Mirrors

/-! ### Expressions and statements -/

/-- An evaluation changes nothing but values. -/
lemma mirrors_evaluate (e : Expr) : Mirrors Still (evaluate e) (Exec.evaluate e) := by
  rw [Exec.evaluate_eq_lift]
  induction e with
  | literal token value => exact mirrors_ofExcept _
  | grouping paren inner ih => exact ih
  | unary operator text right ih =>
    rw [evaluate, eval, Exec.lift_bind]
    exact ih.bind lasting_still fun r => mirrors_ofExcept _
  | binary operator text left right ihl ihr =>
    rw [evaluate, eval, Exec.lift_bind]
    refine ihl.bind lasting_still fun l => ?_
    rw [Exec.lift_bind]
    exact ihr.bind lasting_still fun r => mirrors_ofExcept _
  | name token => exact mirrors_look token
  | assign token value ih =>
    rw [evaluate, eval, Exec.lift_bind]
    exact ih.bind lasting_still fun v => mirrors_assign token v
  | missing => exact fun s _ => ⟨rfl, lasting_still.refl s⟩

/-- A statement goes on after the evaluation of an expression. -/
lemma mirrors_evaluate_bind (e : Expr) {f : Value → Work Unit} {g : Value → Exec Unit}
    (h : ∀ v, Mirrors Keeps (f v) (g v)) :
    Mirrors Keeps (evaluate e >>= f) (Exec.evaluate e >>= g) :=
  (mirrors_evaluate e).keeps.bind lasting_keeps h

mutual

lemma mirrors_execute (sink : Sink) (stmt : Stmt) :
    Mirrors Keeps (execute sink stmt) (exec sink stmt) := by
  match stmt with
  | .expression _ e =>
    rw [execute, exec]
    exact mirrors_evaluate_bind e fun _ => mirrors_pure lasting_keeps _
  | .print _ e =>
    rw [execute, exec]
    exact mirrors_evaluate_bind e fun v => mirrors_write sink _
  | .var _ name none =>
    rw [execute, exec]
    exact mirrors_define name.lexeme .nil
  | .var _ name (some e) =>
    rw [execute, exec]
    exact mirrors_evaluate_bind e fun v => mirrors_define name.lexeme v
  | .block _ body =>
    rw [execute, exec]
    exact (mirrors_interpret sink body).inNewScope
  | .ifThen _ condition consequence =>
    rw [execute, exec]
    refine mirrors_evaluate_bind condition fun c => ?_
    cases c.isTruthy with
    | true => exact mirrors_execute sink consequence
    | false => exact mirrors_pure lasting_keeps _
  | .ifElse _ condition consequence alternative =>
    rw [execute, exec]
    refine mirrors_evaluate_bind condition fun c => ?_
    cases c.isTruthy with
    | true => exact mirrors_execute sink consequence
    | false => exact mirrors_execute sink alternative
  | .missing =>
    rw [execute, exec]
    exact mirrors_throw lasting_keeps _

lemma mirrors_interpret (sink : Sink) (body : List Stmt) :
    Mirrors Keeps (interpret sink body) (execAll sink body) := by
  match body with
  | [] =>
    rw [interpret, execAll]
    exact mirrors_pure lasting_keeps _
  | stmt :: rest =>
    rw [interpret, execAll]
    exact (mirrors_execute sink stmt).bind lasting_keeps fun _ => mirrors_interpret sink rest

end

/-- Scope discipline, for every tree, every forest of scopes with any of them as the current one,
and every sink.  Whether a statement or a whole program ends normally or fails, the interpreter is
back in the scope it started in, every scope is enclosed by the scope that enclosed it before, the
names of all scopes but the current one are the same, and the current one has lost none.  An
evaluation leaves the names of all scopes and the output as they were.  Each of them does what
execution does on the chain that the interpreter sees. -/
theorem execution_leaves_scopes_in_place (sink : Sink) (forest : Forest)
    (current : Fin forest.nodes.length) (written : List Bytes) :
    let start : Interpreter := ⟨forest, current, written⟩
    (∀ stmt, Keeps start (stateAfter (execute sink stmt start)) ∧
      seen (execute sink stmt start) = exec sink stmt ⟨forest.chain current, written⟩) ∧
    (∀ program, Keeps start (stateAfter (interpret sink program start)) ∧
      seen (interpret sink program start) = execAll sink program ⟨forest.chain current, written⟩) ∧
    ∀ e, Still start (stateAfter (evaluate e start)) ∧
      seen (evaluate e start) = Exec.evaluate e ⟨forest.chain current, written⟩ := by
  intro start
  have hstart : start.current < start.forest.nodes.length := current.isLt
  refine ⟨fun stmt => ?_, fun program => ?_, fun e => ?_⟩
  · exact (mirrors_execute sink stmt start hstart).symm
  · exact (mirrors_interpret sink program start hstart).symm
  · exact (mirrors_evaluate e start hstart).symm

end Interpreter

end LoxScript
