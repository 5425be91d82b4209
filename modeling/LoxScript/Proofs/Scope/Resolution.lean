import LoxScript.Proofs.Grammar.WellFormed
import LoxScript.Proofs.Scope.Lookup
import LoxScript.Proofs.Scope.Visits

/-!
# Static scoping

Which variable a name stands for can be told without running the program.  The resolver walks
through the program in the order of the text with the names that each scope binds: a block has a
scope of its own, and a declaration adds its name to the innermost scope once its initial value has
been resolved.  Each occurrence of a name gets the distance to the first scope that binds it, or
none.

The program of an accepted script runs by these distances.  The invariant is that the names of the
resolver fit the chain of the run whenever both are at the same place of the program.  It holds on
both sides of a branch that is not taken because branches declare nothing.
-/

namespace LoxScript

open Grammar

/-- The distances of the names of an expression, in the order in which they are evaluated. -/
def Expr.resolve (stack : Shape) : Expr → List (Option Nat)
  | literal _ _ => []
  | grouping _ inner => inner.resolve stack
  | unary _ _ right => right.resolve stack
  | binary _ _ left right => left.resolve stack ++ right.resolve stack
  | name token => [stack.distance? token.lexeme]
  | assign token value => value.resolve stack ++ [stack.distance? token.lexeme]
  | missing => []

mutual

/-- The distances of the names of a statement, and the names bound after it. -/
def Stmt.resolve (stack : Shape) : Stmt → List (Option Nat) × Shape
  | .expression _ e => (e.resolve stack, stack)
  | .print _ e => (e.resolve stack, stack)
  | .var _ name none => ([], stack.declare name.lexeme)
  | .var _ name (some e) => (e.resolve stack, stack.declare name.lexeme)
  | .block _ body =>
    let (distances, inside) := Program.resolve ([] :: stack) body
    (distances, inside.tail)
  | .ifThen _ condition consequence =>
    let (distances, after) := consequence.resolve stack
    (condition.resolve stack ++ distances, after)
  | .ifElse _ condition consequence alternative =>
    let (distances, between) := consequence.resolve stack
    let (others, after) := alternative.resolve between
    (condition.resolve stack ++ (distances ++ others), after)
  | .missing => ([], stack)

/-- The distances of the names of statements one after the other, and the names bound after them. -/
def Program.resolve (stack : Shape) : List Stmt → List (Option Nat) × Shape
  | [] => ([], stack)
  | stmt :: rest =>
    let (distances, between) := stmt.resolve stack
    let (others, after) := Program.resolve between rest
    (distances ++ others, after)

end

/-- The occurrence concerns the scope at the distance: the name is bound there and in no scope
within it, and the value that is read is that of the scope, or the value that is assigned changes
that scope and no other. -/
def Visit.Concerns (visit : Visit) (d : Nat) : Prop :=
  ∃ scope, visit.chain.scopes[d]? = some scope ∧ scope.has visit.token.lexeme = true ∧
    (∀ nearer ∈ visit.chain.scopes.take d, nearer.has visit.token.lexeme = false) ∧
    match visit.assigned with
    | none => visit.chain.get? visit.token.lexeme = scope.get? visit.token.lexeme
    | some v => ∃ after, visit.chain.assign? visit.token.lexeme v = some after ∧
        after.scopes = visit.chain.scopes.set d (scope.put visit.token.lexeme v)

/-- If the occurrence is evaluated, it concerns the scope at the distance, or fails if there is
none. -/
def Obeys (distance : Option Nat) (visit : Option Visit) : Prop :=
  ∀ v, visit = some v →
    match distance with
    | some d => v.Concerns d
    | none => v.Fails

lemma obeys_none (distance : Option Nat) : Obeys distance none := by
  intro v h
  cases h

/-- Wherever the names fit the chain, an occurrence goes by its distance. -/
lemma Shape.Fits.obeys {stack : Shape} {visit : Visit} (h : stack.Fits visit.chain) :
    Obeys (stack.distance? visit.token.lexeme) (some visit) := by
  rintro _ ⟨⟩
  obtain ⟨token, chain, assigned⟩ := visit
  have hnearest := h.nearest? token.lexeme
  have hget := chain.get?_eq_nearest? token.lexeme
  cases hdistance : stack.distance? token.lexeme with
  | none =>
    rw [hdistance] at hnearest
    rw [hnearest] at hget
    cases assigned with
    | none => exact hget
    | some v => exact Chain.assign?_of_nearest?_eq_none hnearest v
  | some d =>
    rw [hdistance] at hnearest
    obtain ⟨scope, hscope, hhas, hnearer⟩ := Chain.nearest?_eq_some_iff.1 hnearest
    refine ⟨scope, hscope, hhas, hnearer, ?_⟩
    cases assigned with
    | none =>
      rw [hnearest, Option.bind_some, hscope] at hget
      exact hget
    | some v => exact Chain.assign?_of_nearest? hnearest hscope v

variable {ts : List Token} {stack : Shape} {sink : Sink}

/-- An evaluation keeps the names that are bound. -/
lemma Shape.Fits.eval {e : Expr} {c d : Chain} {v : Value} (h : stack.Fits c)
    (heval : eval e c = .ok v d) : stack.Fits d := by
  induction e generalizing c d v with
  | literal _ value =>
    rw [LoxScript.eval] at heval
    cases hvalue : Value.ofLiteral value <;>
    · rw [hvalue] at heval
      cases heval
      try exact h
  | grouping _ inner ih => exact ih h heval
  | unary operator _ right ih =>
    rw [LoxScript.eval] at heval
    obtain ⟨r, d', hright, hlast⟩ := bind_eq_ok_iff.1 heval
    cases hvalue : applyUnary operator r <;>
    · rw [hvalue] at hlast
      cases hlast
      try exact ih h hright
  | binary operator _ left right ihl ihr =>
    rw [LoxScript.eval] at heval
    obtain ⟨l, c', hleft, heval'⟩ := bind_eq_ok_iff.1 heval
    obtain ⟨r, d', hright, hlast⟩ := bind_eq_ok_iff.1 heval'
    cases hvalue : applyBinary operator l r <;>
    · rw [hvalue] at hlast
      cases hlast
      try exact ihr (ihl h hleft) hright
  | name token =>
    rw [eval_name] at heval
    split at heval <;> cases heval
    exact h
  | assign token value ih =>
    cases hvalue : LoxScript.eval value c with
    | error err c' =>
      rw [LoxScript.eval, bind_of_result_error hvalue] at heval
      cases heval
    | ok w c' =>
      rw [eval_assign_of_ok hvalue] at heval
      cases hassign : c'.assign? token.lexeme w with
      | none =>
        rw [hassign] at heval
        cases heval
      | some d' =>
        rw [hassign] at heval
        cases heval
        exact (ih h hvalue).assign? hassign
  | missing => cases heval

lemma Shape.Fits.evaluate {e : Expr} {s t : Store} {v : Value} (h : stack.Fits s.chain)
    (heval : Exec.evaluate e s = .ok v t) : stack.Fits t.chain := by
  obtain ⟨c, hc, rfl⟩ := Exec.evaluate_eq_ok_iff.1 heval
  exact h.eval hc

/-- The names of an expression go by their distances. -/
lemma Expr.obeys (e : Expr) {c : Option Chain} (h : ∀ d, c = some d → stack.Fits d) :
    List.Forall₂ Obeys (e.resolve stack) (e.visits c) := by
  induction e generalizing c with
  | literal | missing => exact .nil
  | grouping _ inner ih => exact ih h
  | unary _ _ right ih => exact ih h
  | binary _ _ left right ihl ihr =>
    refine List.rel_append (ihl h) (ihr fun d hd => ?_)
    obtain ⟨c', hc', hnext⟩ := Option.bind_eq_some_iff.1 hd
    obtain ⟨v, d', heval, hd'⟩ := next?_eq_some_iff.1 hnext
    cases hd'
    exact (h c' hc').eval heval
  | name token =>
    refine .cons ?_ .nil
    cases c with
    | none => exact obeys_none _
    | some d => exact Shape.Fits.obeys (h d rfl)
  | assign token value ih =>
    refine List.rel_append (ih h) (.cons ?_ .nil)
    intro visit hvisit
    obtain ⟨c', hc', hnext⟩ := Option.bind_eq_some_iff.1 hvisit
    obtain ⟨v, d, heval, hd⟩ := next?_eq_some_iff.1 hnext
    cases hd
    have hvisit : Obeys (stack.distance? token.lexeme) (some ⟨token, d, some v⟩) :=
      Shape.Fits.obeys ((h c' hc').eval heval)
    exact hvisit _ rfl

/-! ### Statements -/

mutual

/-- A statement adds names to the innermost scope only, and only a declaration does. -/
lemma Stmt.WellFormed.resolve_snd {stmt : Stmt} (h : stmt.WellFormed ts) (names : List Bytes)
    (stack : Shape) :
    ∃ names', (stmt.resolve (names :: stack)).2 = names' :: stack ∧
      (stmt.isDeclaration = false → names' = names) := by
  match stmt with
  | .expression _ e | .print _ e => exact ⟨names, rfl, fun _ => rfl⟩
  | .var _ name none | .var _ name (some e) =>
    refine ⟨name.lexeme :: names, rfl, fun hdeclaration => ?_⟩
    cases hdeclaration
  | .block _ body =>
    have hbody : Program.WellFormed ts body := h
    obtain ⟨names', hnames'⟩ := Program.WellFormed.resolve_snd hbody [] (names :: stack)
    refine ⟨names, ?_, fun _ => rfl⟩
    simp only [Stmt.resolve, hnames', List.tail_cons]
  | .ifThen _ condition consequence =>
    obtain ⟨-, hconsequence, hdeclaration⟩ := h
    obtain ⟨names', hnames', hkept⟩ := hconsequence.resolve_snd names stack
    refine ⟨names, ?_, fun _ => rfl⟩
    simp only [Stmt.resolve, hnames', hkept hdeclaration]
  | .ifElse _ condition consequence alternative =>
    obtain ⟨-, ⟨hconsequence, hdeclaration⟩, halternative, hdeclaration'⟩ := h
    obtain ⟨names', hnames', hkept⟩ := hconsequence.resolve_snd names stack
    obtain ⟨names'', hnames'', hkept'⟩ := halternative.resolve_snd names stack
    refine ⟨names, ?_, fun _ => rfl⟩
    simp only [Stmt.resolve, hnames', hkept hdeclaration, hnames'', hkept' hdeclaration']
  | .missing => exact h.elim

lemma Program.WellFormed.resolve_snd {body : List Stmt} (h : Program.WellFormed ts body)
    (names : List Bytes) (stack : Shape) :
    ∃ names', (Program.resolve (names :: stack) body).2 = names' :: stack := by
  match body with
  | [] => exact ⟨names, rfl⟩
  | stmt :: rest =>
    obtain ⟨names', hstmt, -⟩ := h.1.resolve_snd names stack
    obtain ⟨names'', hrest⟩ := Program.WellFormed.resolve_snd h.2 names' stack
    exact ⟨names'', by simp only [Program.resolve, hstmt, hrest]⟩

end

/-- Only declarations change the names. -/
lemma Stmt.WellFormed.resolve_snd_of_not_declaration {stmt : Stmt} (h : stmt.WellFormed ts)
    (hdeclaration : stmt.isDeclaration = false) (hstack : stack ≠ []) :
    (stmt.resolve stack).2 = stack := by
  obtain ⟨names, outer, rfl⟩ := List.exists_cons_of_ne_nil hstack
  obtain ⟨names', hnames', hkept⟩ := h.resolve_snd names outer
  rw [hnames', hkept hdeclaration]

variable (sink) in
mutual

/-- After a statement the names of the resolver fit the chain again. -/
lemma Shape.Fits.exec {stmt : Stmt} {stack : Shape} {s t : Store} (hstmt : stmt.WellFormed ts)
    (h : stack.Fits s.chain) (hexec : exec sink stmt s = .ok () t) :
    Shape.Fits (stmt.resolve stack).2 t.chain := by
  match stmt with
  | .expression _ e =>
    rw [LoxScript.exec] at hexec
    obtain ⟨v, u, heval, hpure⟩ := bind_eq_ok_iff.1 hexec
    cases hpure
    exact h.evaluate heval
  | .print _ e =>
    rw [LoxScript.exec] at hexec
    obtain ⟨v, u, heval, hwrite⟩ := bind_eq_ok_iff.1 hexec
    unfold Exec.write at hwrite
    have hu : stack.Fits u.chain := h.evaluate heval
    split at hwrite <;> cases hwrite
    exact hu
  | .var _ token none =>
    rw [LoxScript.exec] at hexec
    cases hexec
    exact h.define token.lexeme .nil
  | .var _ token (some e) =>
    rw [LoxScript.exec] at hexec
    obtain ⟨v, u, heval, hdefine⟩ := bind_eq_ok_iff.1 hexec
    cases hdefine
    exact (h.evaluate heval).define token.lexeme v
  | .block _ body =>
    rw [LoxScript.exec] at hexec
    unfold Exec.inNewScope at hexec
    split at hexec <;> cases hexec
    rename_i u hbody
    have hwell : Program.WellFormed ts body := hstmt
    have hfits := Shape.Fits.execAll hwell h.enter hbody
    obtain ⟨names, hnames⟩ := hwell.resolve_snd [] stack
    rw [hnames] at hfits
    rw [hstmt.resolve_snd_of_not_declaration rfl h.ne_nil]
    exact hfits.leave h.ne_nil
  | .ifThen _ condition consequence =>
    rw [LoxScript.exec] at hexec
    obtain ⟨v, u, heval, hbranch⟩ := bind_eq_ok_iff.1 hexec
    have hu := h.evaluate heval
    rw [hstmt.resolve_snd_of_not_declaration rfl h.ne_nil]
    obtain ⟨-, hconsequence, hdeclaration⟩ := hstmt
    split_ifs at hbranch
    · have hfits := Shape.Fits.exec hconsequence hu hbranch
      rwa [hconsequence.resolve_snd_of_not_declaration hdeclaration h.ne_nil] at hfits
    · cases hbranch
      exact hu
  | .ifElse _ condition consequence alternative =>
    rw [LoxScript.exec] at hexec
    obtain ⟨v, u, heval, hbranch⟩ := bind_eq_ok_iff.1 hexec
    have hu := h.evaluate heval
    rw [hstmt.resolve_snd_of_not_declaration rfl h.ne_nil]
    obtain ⟨-, ⟨hconsequence, hdeclaration⟩, halternative, hdeclaration'⟩ := hstmt
    split_ifs at hbranch
    · have hfits := Shape.Fits.exec hconsequence hu hbranch
      rwa [hconsequence.resolve_snd_of_not_declaration hdeclaration h.ne_nil] at hfits
    · have hfits := Shape.Fits.exec halternative hu hbranch
      rwa [halternative.resolve_snd_of_not_declaration hdeclaration' h.ne_nil] at hfits
  | .missing => exact hstmt.elim

lemma Shape.Fits.execAll {body : List Stmt} {stack : Shape} {s t : Store}
    (hbody : Program.WellFormed ts body) (h : stack.Fits s.chain)
    (hexec : execAll sink body s = .ok () t) :
    Shape.Fits (Program.resolve stack body).2 t.chain := by
  match body with
  | [] =>
    cases hexec
    exact h
  | stmt :: rest =>
    rw [LoxScript.execAll] at hexec
    obtain ⟨_, u, hstmt, hrest⟩ := bind_eq_ok_iff.1 hexec
    have hbetween := Shape.Fits.exec hbody.1 h hstmt
    have hafter := Shape.Fits.execAll hbody.2 hbetween hrest
    exact hafter

end

/-- The condition is evaluated before a branch. -/
lemma Shape.Fits.branch? {condition : Expr} {truth : Bool} {s : Option Store}
    (h : ∀ t, s = some t → stack.Fits t.chain) {t : Store}
    (ht : s.bind (branch? condition truth) = some t) : stack.Fits t.chain := by
  obtain ⟨u, hu, hbranch⟩ := Option.bind_eq_some_iff.1 ht
  obtain ⟨v, t', heval, htruth⟩ := next?_eq_some_iff.1 hbranch
  split_ifs at htruth
  cases htruth
  exact (h u hu).evaluate heval

lemma Expr.obeys_of_store (e : Expr) {s : Option Store}
    (h : ∀ t, s = some t → stack.Fits t.chain) :
    List.Forall₂ Obeys (e.resolve stack) (e.visits (s.map Store.chain)) := by
  refine e.obeys fun c hc => ?_
  obtain ⟨t, ht, rfl⟩ := Option.map_eq_some_iff.1 hc
  exact h t ht

variable (sink) in
mutual

/-- The names of a statement go by their distances. -/
lemma Stmt.WellFormed.obeys {stmt : Stmt} (hstmt : stmt.WellFormed ts) {stack : Shape}
    (hstack : stack ≠ []) {s : Option Store} (h : ∀ t, s = some t → stack.Fits t.chain) :
    List.Forall₂ Obeys (stmt.resolve stack).1 (stmt.visits sink s) := by
  match stmt with
  | .expression _ e | .print _ e | .var _ _ (some e) => exact e.obeys_of_store h
  | .var _ _ none | .missing => exact .nil
  | .block _ body =>
    have hinside : ([] :: stack : Shape) ≠ [] := List.cons_ne_nil [] stack
    refine Program.WellFormed.obeys hstmt hinside fun t ht => ?_
    obtain ⟨u, hu, rfl⟩ := Option.map_eq_some_iff.1 ht
    exact (h u hu).enter
  | .ifThen _ condition consequence =>
    obtain ⟨-, hconsequence, -⟩ := hstmt
    exact List.rel_append (condition.obeys_of_store h)
      (hconsequence.obeys hstack fun t ht => Shape.Fits.branch? h ht)
  | .ifElse _ condition consequence alternative =>
    obtain ⟨-, ⟨hconsequence, hdeclaration⟩, halternative, -⟩ := hstmt
    have hkept := hconsequence.resolve_snd_of_not_declaration hdeclaration hstack
    have hfirst := hconsequence.obeys hstack
      fun t (ht : s.bind (branch? condition true) = some t) => Shape.Fits.branch? h ht
    have hsecond := halternative.obeys hstack
      fun t (ht : s.bind (branch? condition false) = some t) => Shape.Fits.branch? h ht
    have hboth := List.rel_append (condition.obeys_of_store h) (List.rel_append hfirst hsecond)
    simpa only [Stmt.resolve, Stmt.visits, hkept] using hboth

lemma Program.WellFormed.obeys {body : List Stmt} (hbody : Program.WellFormed ts body)
    {stack : Shape} (hstack : stack ≠ []) {s : Option Store}
    (h : ∀ t, s = some t → stack.Fits t.chain) :
    List.Forall₂ Obeys (Program.resolve stack body).1 (Program.visits sink body s) := by
  match body with
  | [] => exact .nil
  | stmt :: rest =>
    obtain ⟨names, outer, rfl⟩ := List.exists_cons_of_ne_nil hstack
    obtain ⟨names', hnames', -⟩ := hbody.1.resolve_snd names outer
    have hbetween : (stmt.resolve (names :: outer)).2 ≠ [] := by
      rw [hnames']
      exact List.cons_ne_nil names' outer
    refine List.rel_append (hbody.1.obeys hstack h)
      (Program.WellFormed.obeys hbody.2 hbetween fun t ht => ?_)
    obtain ⟨u, hu, hnext⟩ := Option.bind_eq_some_iff.1 ht
    obtain ⟨_, t', hexec, ht'⟩ := next?_eq_some_iff.1 hnext
    cases ht'
    exact Shape.Fits.exec sink hbody.1 (h u hu) hexec

end

/-! ### Runs -/

end LoxScript
