import Mathlib.Tactic.Lemma
import LoxScript.Session

/-!
# Entries as programs

Handling an entry executes its statements and shows the values of those that are expressions.  That
is just what running the entry does when a `print` is put before each expression at its top, so all
that is known about runs applies to sessions.
-/

namespace LoxScript

/-- The statement with a `print` before it, if it is an expression. -/
def Stmt.shown : Stmt → Stmt
  | .expression start e => .print start e
  | stmt => stmt

namespace Session

lemma echo_eq_exec (stmt : Stmt) : echo stmt = exec .unlimited stmt.shown := by
  cases stmt with
  | expression start e =>
    rw [Stmt.shown, exec]
    rfl
  | print | var | block | ifThen | ifElse | missing => rfl

lemma echoAll_eq_execAll (p : List Stmt) : echoAll p = execAll .unlimited (p.map Stmt.shown) := by
  induction p with
  | nil => rfl
  | cons stmt rest ih => rw [echoAll, List.map_cons, execAll, echo_eq_exec, ih]

/-- What is written about the failure of an entry, if it fails. -/
def failureReport : Option RuntimeError → Bytes
  | none => []
  | some e => Bytes.line (utf8 "runtime error: " ++ e.message)

/-- An entry that is accepted is run with the variables of the session. -/
lemma eval_of_accepted {chain : Chain} {source : Bytes} {p : Program}
    (h : parse .recovering source = .ok p) (trace : Bool) :
    eval trace chain source =
      ⟨(if trace then traceText (readSource .recovering source).trace else [])
          ++ (run .unlimited (p.map Stmt.shown) chain).output
          ++ failureReport (run .unlimited (p.map Stmt.shown) chain).failure,
        (run .unlimited (p.map Stmt.shown) chain).chain, true⟩ := by
  unfold parse at h
  unfold eval
  dsimp only
  rw [h]
  dsimp only
  rw [echoAll_eq_execAll]
  rfl

/-- An entry that is rejected leaves the variables as they are. -/
lemma chain_eval_of_rejected {chain : Chain} {source : Bytes} {r : Rejection}
    (h : parse .recovering source = .error r) (trace : Bool) :
    (eval trace chain source).chain = chain := by
  unfold parse at h
  unfold eval
  dsimp only
  rw [h]

end Session

end LoxScript
