import LoxScript.Value

/-!
# Scopes

A scope binds names to values.  Its bindings are kept in the order of the names, so the names of a
scope come out sorted and each of them once.

While a program runs, the scopes that it sees form a chain from the innermost outwards.  Names are
looked up along the chain; a declaration always goes into the innermost scope, while an assignment
changes the nearest binding and never makes one.
-/

namespace LoxScript

/-- Bindings of names to values, in the order of the names. -/
structure Scope where
  bindings : List (Bytes × Value)
  deriving DecidableEq

namespace Scope

/-- The scope without bindings. -/
def empty : Scope := ⟨[]⟩

/-- The value of a name. -/
def get? (s : Scope) (name : Bytes) : Option Value :=
  s.bindings.lookup name

/-- Is the name bound? -/
def has (s : Scope) (name : Bytes) : Bool :=
  (s.get? name).isSome

/-- The names that are bound. -/
def names (s : Scope) : List Bytes :=
  s.bindings.map Prod.fst

/-- Bindings with one more, or with another value for a name that is bound. -/
def insert (name : Bytes) (v : Value) : List (Bytes × Value) → List (Bytes × Value)
  | [] => [(name, v)]
  | (other, w) :: rest =>
    if name = other then (name, v) :: rest
    else if name < other then (name, v) :: (other, w) :: rest
    else (other, w) :: insert name v rest

/-- The scope in which the name has the given value. -/
def put (s : Scope) (name : Bytes) (v : Value) : Scope :=
  ⟨insert name v s.bindings⟩

end Scope

/-- The scopes that a program sees, from the innermost to the outermost. -/
inductive Chain where
  | root (scope : Scope)
  | inner (scope : Scope) (outer : Chain)
  deriving DecidableEq

namespace Chain

/-- A single scope without bindings. -/
def fresh : Chain := .root .empty

/-- The innermost scope. -/
def current : Chain → Scope
  | root s => s
  | inner s _ => s

/-- The scopes in order, the innermost first. -/
def scopes : Chain → List Scope
  | root s => [s]
  | inner s outer => s :: outer.scopes

/-- How many scopes there are. -/
def depth (c : Chain) : Nat :=
  c.scopes.length

/-- The value of a name in the nearest scope that binds it. -/
def get? : Chain → Bytes → Option Value
  | root s, name => s.get? name
  | inner s outer, name => (s.get? name).or (outer.get? name)

/-- Declares a name in the innermost scope. -/
def define : Chain → Bytes → Value → Chain
  | root s, name, v => root (s.put name v)
  | inner s outer, name, v => inner (s.put name v) outer

/-- Gives a name another value in the nearest scope that binds it, if there is one. -/
def assign? : Chain → Bytes → Value → Option Chain
  | root s, name, v => if s.has name then some (root (s.put name v)) else none
  | inner s outer, name, v =>
    if s.has name then some (inner (s.put name v) outer)
    else (outer.assign? name v).map (inner s)

/-- The chain with a new innermost scope. -/
def enter (c : Chain) : Chain :=
  inner .empty c

/-- The chain without its innermost scope; the outermost scope cannot be left. -/
def leave : Chain → Chain
  | root s => root s
  | inner _ outer => outer

end Chain

end LoxScript
