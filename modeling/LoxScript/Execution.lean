import LoxScript.Tree
import LoxScript.Scope
import LoxScript.Execution.Operator

/-!
# Running programs

Evaluating an expression changes at most the values of variables.  Executing a statement may declare
variables and write output as well; a block runs in a scope of its own, which is left on every way
out.  A failure ends the run and keeps all that was done before it.

Output goes to a sink, one chunk for each print statement, and the sink may refuse a chunk.
-/

namespace LoxScript

/-- Where output goes.  Given the chunks accepted so far, the latest first, and the next one, a sink
may refuse it for a reason. -/
structure Sink where
  refuses : List Bytes → Bytes → Option Bytes

namespace Sink

/-- The sink that accepts everything. -/
def unlimited : Sink := ⟨fun _ _ => none⟩

/-- The sink that accepts `n` chunks and refuses all further ones for the given reason. -/
def limited (n : Nat) (reason : Bytes) : Sink :=
  ⟨fun written _ => if written.length < n then none else some reason⟩

end Sink

/-- What a run works on. -/
structure Store where
  chain : Chain
  /-- The chunks written, the latest first. -/
  written : List Bytes

/-- Evaluation: variables may change, and a failure keeps the changes. -/
abbrev Eval := EStateM RuntimeError Chain

/-- Execution: variables and output may change, and a failure keeps the changes. -/
abbrev Exec := EStateM RuntimeError Store

/-- A result that was computed without effects. -/
def Eval.ofExcept : Except RuntimeError Value → Eval Value
  | .ok v => pure v
  | .error e => throw e

/-- Evaluates an expression. -/
def eval : Expr → Eval Value
  | .literal _ value => Eval.ofExcept (Value.ofLiteral value)
  | .grouping _ inner => eval inner
  | .unary operator _ right => do
    let r ← eval right
    Eval.ofExcept (applyUnary operator r)
  | .binary operator _ left right => do
    let l ← eval left
    let r ← eval right
    Eval.ofExcept (applyBinary operator l r)
  | .name token => do
    match (← get).get? token.lexeme with
    | some v => pure v
    | none => throw (.undefined token.lexeme token.line)
  | .assign token value => do
    let v ← eval value
    match (← get).assign? token.lexeme v with
    | some chain =>
      set chain
      pure v
    | none => throw (.undefined token.lexeme token.line)
  | .missing => throw .missingExpression

namespace Exec

/-- Evaluates an expression in the course of execution. -/
def evaluate (e : Expr) : Exec Value :=
  fun s =>
    match eval e s.chain with
    | .ok v chain => .ok v { s with chain }
    | .error err chain => .error err { s with chain }

/-- Writes a chunk of output. -/
def write (sink : Sink) (chunk : Bytes) : Exec Unit :=
  fun s =>
    match sink.refuses s.written chunk with
    | none => .ok () { s with written := chunk :: s.written }
    | some reason => .error (.refused reason) s

/-- Declares a variable in the current scope. -/
def define (name : Bytes) (v : Value) : Exec Unit :=
  modify fun s => { s with chain := s.chain.define name v }

/-- Runs in a scope of its own and leaves it again, also after a failure. -/
def inNewScope (body : Exec Unit) : Exec Unit :=
  fun s =>
    match body { s with chain := s.chain.enter } with
    | .ok () t => .ok () { t with chain := t.chain.leave }
    | .error e t => .error e { t with chain := t.chain.leave }

end Exec

open Exec in
mutual

/-- Executes a statement. -/
def exec (sink : Sink) : Stmt → Exec Unit
  | .expression _ e => do
    let _ ← evaluate e
  | .print _ e => do
    let v ← evaluate e
    write sink (Bytes.line v.inspect)
  | .var _ name none => define name.lexeme .nil
  | .var _ name (some e) => do
    let v ← evaluate e
    define name.lexeme v
  | .block _ body => inNewScope (execAll sink body)
  | .ifThen _ condition consequence => do
    let c ← evaluate condition
    if c.isTruthy then exec sink consequence
  | .ifElse _ condition consequence alternative => do
    let c ← evaluate condition
    if c.isTruthy then exec sink consequence else exec sink alternative
  | .missing => throw .missingStatement

/-- Executes statements one after the other. -/
def execAll (sink : Sink) : List Stmt → Exec Unit
  | [] => pure ()
  | s :: rest => do
    exec sink s
    execAll sink rest

end

/-- What a run leaves behind. -/
structure Outcome where
  /-- The variables. -/
  chain : Chain
  /-- The chunks written, in order. -/
  chunks : List Bytes
  /-- What ended the run early. -/
  failure : Option RuntimeError

/-- The output as one text. -/
def Outcome.output (o : Outcome) : Bytes :=
  o.chunks.flatten

/-- What the result of an execution leaves behind. -/
def Outcome.ofResult : EStateM.Result RuntimeError Store Unit → Outcome
  | .ok _ s => ⟨s.chain, s.written.reverse, none⟩
  | .error e s => ⟨s.chain, s.written.reverse, some e⟩

/-- Executes statements one after the other and collects the values of those that are expressions,
also when a later statement fails. -/
def respondFrom (sink : Sink) :
    List Stmt → Store → List Value × EStateM.Result RuntimeError Store Unit
  | [], s => ([], .ok () s)
  | .expression _ e :: rest, s =>
    match Exec.evaluate e s with
    | .ok v t => ((respondFrom sink rest t).map (v :: ·) id)
    | .error err t => ([], .error err t)
  | stmt :: rest, s =>
    match exec sink stmt s with
    | .ok () t => respondFrom sink rest t
    | .error err t => ([], .error err t)

/-- Runs a program with the given variables and tells the values of its expressions. -/
def respond (sink : Sink) (program : Program) (chain : Chain) : List Value × Outcome :=
  let (values, result) := respondFrom sink program ⟨chain, []⟩
  (values, .ofResult result)

/-- Runs a program with the given variables. -/
def run (sink : Sink) (program : Program) (chain : Chain) : Outcome :=
  .ofResult (execAll sink program ⟨chain, []⟩)

end LoxScript
