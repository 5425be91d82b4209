import LoxScript.Execution.RuntimeError
import LoxScript.Scope

/-!
# Forests of scopes

Several scopes may be enclosed by the same one, and a change in that scope is then seen from all of
them.  A forest holds numbered scopes, each with the number of the scope around it.  A scope is
always younger than the one around it, so every walk outwards ends.  What can be done with a scope
is done with the chain that starts there; `store` puts a changed chain back.  A name that is not
bound anywhere on the chain is an error, and the forest stays as it is.
-/

namespace LoxScript

/-- A scope of a forest and the number of the scope around it. -/
structure Forest.Node where
  scope : Scope
  outer : Option Nat
  deriving DecidableEq

/-- Numbered scopes that enclose each other. -/
structure Forest where
  nodes : List Forest.Node
  deriving DecidableEq

namespace Forest

/-- The forest with one scope, which has no bindings and nothing around it. -/
def fresh : Forest := ⟨[⟨.empty, none⟩]⟩

/-- The number of the scope around a scope. -/
def outer? (f : Forest) (id : Nat) : Option Nat :=
  f.nodes[id]?.bind Node.outer

/-- The forest with a new scope, and the number of it. -/
def add (f : Forest) (outer : Option Nat) : Forest × Nat :=
  (⟨f.nodes ++ [⟨.empty, outer⟩]⟩, f.nodes.length)

/-- The bindings of a scope. -/
def scope (f : Forest) (id : Nat) : Scope :=
  match f.nodes[id]? with
  | some node => node.scope
  | none => .empty

/-- The chain that starts at a scope. -/
def chain (f : Forest) (id : Nat) : Chain :=
  match f.outer? id with
  | some o => if o < id then .inner (f.scope id) (f.chain o) else .root (f.scope id)
  | none => .root (f.scope id)

/-- The forest with other bindings in one scope. -/
def update (f : Forest) (id : Nat) (s : Scope) : Forest :=
  ⟨f.nodes.modify id fun node => { node with scope := s }⟩

/-- The forest in which the chain that starts at a scope has been replaced. -/
def store (f : Forest) (id : Nat) : Chain → Forest
  | .root s => f.update id s
  | .inner s outer =>
    match f.outer? id with
    | some o => (f.update id s).store o outer
    | none => f.update id s

/-- The value of a name seen from a scope. -/
def get? (f : Forest) (id : Nat) (name : Bytes) : Option Value :=
  (f.chain id).get? name

/-- Declares a name in a scope. -/
def define (f : Forest) (id : Nat) (name : Bytes) (v : Value) : Forest :=
  f.store id ((f.chain id).define name v)

/-- Gives a name seen from a scope another value, if it is bound. -/
def assign? (f : Forest) (id : Nat) (name : Bytes) (v : Value) : Option Forest :=
  ((f.chain id).assign? name v).map (f.store id)

/-- A look at a forest or a change to it, which may fail. -/
abbrev Access := EStateM RuntimeError Forest

/-- Looks up the value of a name seen from a scope.  A forest knows no lines, so a failure is on
line 0. -/
def look (id : Nat) (name : Bytes) : Access Value :=
  fun f =>
    match f.get? id name with
    | some v => .ok v f
    | none => .error (.undefined name 0) f

/-- Gives a name seen from a scope another value, or fails if the name is not bound. -/
def assign (id : Nat) (name : Bytes) (v : Value) : Access Unit :=
  fun f =>
    match f.assign? id name v with
    | some g => .ok () g
    | none => .error (.undefined name 0) f

end Forest

end LoxScript
