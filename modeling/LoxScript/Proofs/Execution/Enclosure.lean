import LoxScript.Proofs.Grammar.Joining
import LoxScript.Proofs.Scope.Changes

/-!
# Programs in a block of their own

A program does the same when braces are put around it.  Its variables are then declared one scope
further in, but no name tells the difference: at every moment of the two runs each name has the same
value, and the same names can be assigned to.

`Chain.Alike` is the relation between the scopes of the two runs.  Below, they are compared by what
names mean; above, where blocks of the program itself have been entered, they are compared scope by
scope, so that the blocks can be left again.  Every computation of a run respects this relation.
-/

namespace LoxScript

open Grammar Scan

/-! ### Chains that look alike -/

namespace Chain

/-- Every name has the same value on both chains, and the innermost `n` scopes are the same. -/
inductive Alike : Nat → Chain → Chain → Prop
  | base {c d : Chain} : (∀ x, c.get? x = d.get? x) → Alike 0 c d
  | inner {n : Nat} {c d : Chain} (s : Scope) :
      Alike n c d → Alike (n + 1) (.inner s c) (.inner s d)

variable {n : Nat} {c d : Chain}

lemma Alike.get? (h : Alike n c d) (x : Bytes) : c.get? x = d.get? x := by
  induction h with
  | base hget => exact hget x
  | inner s _ ih => rw [Chain.get?, Chain.get?, ih]

lemma Alike.define (h : Alike n c d) (x : Bytes) (v : Value) :
    Alike n (c.define x v) (d.define x v) := by
  cases h with
  | base hget =>
    refine .base fun y => ?_
    rw [get?_define, get?_define, hget]
  | inner s houter => exact .inner (s.put x v) houter

/-- An assignment succeeds on both chains or on neither. -/
lemma Alike.assign? (h : Alike n c d) (x : Bytes) (v : Value) :
    Option.Rel (Alike n) (c.assign? x v) (d.assign? x v) := by
  induction h with
  | @base c d hget =>
    have hboth : c.assign? x v = none ↔ d.assign? x v = none := by
      rw [assign?_eq_none_iff, assign?_eq_none_iff, hget]
    cases hc : c.assign? x v with
    | none =>
      rw [hboth.1 hc]
      exact .none
    | some c' =>
      cases hd : d.assign? x v with
      | none =>
        rw [hboth.2 hd] at hc
        cases hc
      | some d' =>
        refine .some (.base fun y => ?_)
        rw [get?_of_assign? hc, get?_of_assign? hd, hget]
  | @inner n c d s houter ih =>
    rw [Chain.assign?, Chain.assign?]
    split_ifs with hhas
    · exact .some (.inner _ houter)
    · generalize c.assign? x v = c', d.assign? x v = d' at ih
      cases ih with
      | none => exact .none
      | some hassigned => exact .some (.inner s hassigned)

lemma Alike.enter (h : Alike n c d) : Alike (n + 1) c.enter d.enter :=
  .inner .empty h

lemma Alike.leave (h : Alike (n + 1) c d) : Alike n c.leave d.leave := by
  cases h with
  | inner s houter => exact houter

/-- A chain looks like itself with a new scope in which nothing is declared yet. -/
lemma alike_enter (c : Chain) : Alike 0 c.enter c :=
  .base c.get?_enter

end Chain

/-- The variables of the stores look alike, and the same has been written. -/
structure Store.Alike (n : Nat) (s t : Store) : Prop where
  chain : s.chain.Alike n t.chain
  written : s.written = t.written

/-! ### Computations that respect a relation -/

section Respects

variable {σ α β : Type} {R : σ → σ → Prop}

/-- Two computations come to the same, with the same value or the same failure. -/
inductive SameResult (R : σ → σ → Prop) :
    EStateM.Result RuntimeError σ α → EStateM.Result RuntimeError σ α → Prop
  | ok {s t : σ} (a : α) : R s t → SameResult R (.ok a s) (.ok a t)
  | error {s t : σ} (e : RuntimeError) : R s t → SameResult R (.error e s) (.error e t)

/-- Started in related states, the computation comes to the same. -/
def Respects (R : σ → σ → Prop) (x : EStateM RuntimeError σ α) : Prop :=
  ∀ ⦃s t⦄, R s t → SameResult R (x s) (x t)

lemma respects_pure (a : α) : Respects R (pure a) :=
  fun _ _ h => .ok a h

lemma respects_throw (e : RuntimeError) : Respects R (throw e : EStateM RuntimeError σ α) :=
  fun _ _ h => .error e h

lemma Respects.bind {x : EStateM RuntimeError σ α} {f : α → EStateM RuntimeError σ β}
    (hx : Respects R x) (hf : ∀ a, Respects R (f a)) : Respects R (x >>= f) := by
  intro s t h
  have hfirst := hx h
  cases hs : x s with
  | ok a s' =>
    rw [hs] at hfirst
    generalize ht : x t = r at hfirst
    cases hfirst with
    | ok _ hrest =>
      rw [bind_of_result_ok hs, bind_of_result_ok ht]
      exact hf a hrest
  | error e s' =>
    rw [hs] at hfirst
    generalize ht : x t = r at hfirst
    cases hfirst with
    | error _ hrest =>
      rw [bind_of_result_error hs, bind_of_result_error ht]
      exact .error e hrest

end Respects

open Chain (Develops)

/-! ### Expressions -/

section Execution

variable {n : Nat}

lemma respects_ofExcept (r : Except RuntimeError Value) :
    Respects (Chain.Alike n) (Eval.ofExcept r) := by
  cases r with
  | ok v => exact respects_pure v
  | error e => exact respects_throw e

/-- A name is found, or missed, on both chains. -/
lemma respects_eval_name (token : Token) : Respects (Chain.Alike n) (eval (.name token)) := by
  intro c d h
  rw [eval_name, eval_name, ← h.get?]
  cases c.get? token.lexeme with
  | none => exact .error _ h
  | some v => exact .ok v h

/-- So is a name that gets a value which is known. -/
lemma sameResult_eval_assign {token : Token} {value : Expr} {c d c' d' : Chain} {v : Value}
    (hc : eval value c = .ok v c') (hd : eval value d = .ok v d') (h : c'.Alike n d') :
    SameResult (Chain.Alike n) (eval (.assign token value) c) (eval (.assign token value) d) := by
  rw [eval_assign_of_ok hc, eval_assign_of_ok hd]
  have hassign := h.assign? token.lexeme v
  generalize c'.assign? token.lexeme v = a, d'.assign? token.lexeme v = b at hassign
  cases hassign with
  | none => exact .error _ h
  | some halike => exact .ok v halike

/-- An expression has the same value on chains that look alike. -/
lemma respects_eval (e : Expr) : Respects (Chain.Alike n) (eval e) := by
  induction e with
  | literal token value =>
    rw [eval]
    exact respects_ofExcept _
  | grouping paren inner ih =>
    rw [eval]
    exact ih
  | unary operator text right ih =>
    rw [eval]
    exact ih.bind fun r => respects_ofExcept _
  | binary operator text left right ihl ihr =>
    rw [eval]
    exact ihl.bind fun l => ihr.bind fun r => respects_ofExcept _
  | name token => exact respects_eval_name token
  | assign token value ih =>
    intro c d h
    have hvalue := ih h
    generalize hc : eval value c = r, hd : eval value d = r' at hvalue
    cases hvalue with
    | ok v halike => exact sameResult_eval_assign hc hd halike
    | error e halike =>
      rw [eval, bind_of_result_error hc, bind_of_result_error hd]
      exact .error e halike
  | missing =>
    rw [eval]
    exact respects_throw _

/-! ### Statements -/

lemma respects_evaluate (e : Expr) : Respects (Store.Alike n) (Exec.evaluate e) := by
  intro s t h
  have hvalue := respects_eval e h.chain
  unfold Exec.evaluate
  generalize eval e s.chain = r, eval e t.chain = r' at hvalue
  cases hvalue with
  | ok v halike => exact .ok v ⟨halike, h.written⟩
  | error err halike => exact .error err ⟨halike, h.written⟩

/-- A sink decides by what has been written, and that is the same. -/
lemma respects_write (sink : Sink) (chunk : Bytes) :
    Respects (Store.Alike n) (Exec.write sink chunk) := by
  intro s t h
  unfold Exec.write
  rw [← h.written]
  cases sink.refuses s.written chunk with
  | none => exact .ok () ⟨h.chain, rfl⟩
  | some reason => exact .error _ h

lemma respects_define (x : Bytes) (v : Value) : Respects (Store.Alike n) (Exec.define x v) :=
  fun _ _ h => .ok () ⟨h.chain.define x v, h.written⟩

lemma Respects.inNewScope {body : Exec Unit} (h : Respects (Store.Alike (n + 1)) body) :
    Respects (Store.Alike n) (Exec.inNewScope body) := by
  intro s t hst
  have hbody := @h { s with chain := s.chain.enter } { t with chain := t.chain.enter }
    ⟨hst.chain.enter, hst.written⟩
  unfold Exec.inNewScope
  generalize body { s with chain := s.chain.enter } = r,
    body { t with chain := t.chain.enter } = r' at hbody
  cases hbody with
  | ok _ hafter => exact .ok () ⟨hafter.chain.leave, hafter.written⟩
  | error e hafter => exact .error e ⟨hafter.chain.leave, hafter.written⟩

mutual

/-- A statement does the same with variables that look alike. -/
lemma respects_exec (sink : Sink) (stmt : Stmt) (n : Nat) :
    Respects (Store.Alike n) (exec sink stmt) := by
  match stmt with
  | .expression _ e =>
    rw [exec]
    exact (respects_evaluate e).bind fun _ => respects_pure _
  | .print _ e =>
    rw [exec]
    exact (respects_evaluate e).bind fun v => respects_write sink _
  | .var _ name none =>
    rw [exec]
    exact respects_define name.lexeme .nil
  | .var _ name (some e) =>
    rw [exec]
    exact (respects_evaluate e).bind fun v => respects_define name.lexeme v
  | .block _ body =>
    rw [exec]
    exact (respects_execAll sink body (n + 1)).inNewScope
  | .ifThen _ condition consequence =>
    rw [exec]
    refine (respects_evaluate condition).bind fun c => ?_
    cases c.isTruthy with
    | true => exact respects_exec sink consequence n
    | false => exact respects_pure _
  | .ifElse _ condition consequence alternative =>
    rw [exec]
    refine (respects_evaluate condition).bind fun c => ?_
    cases c.isTruthy with
    | true => exact respects_exec sink consequence n
    | false => exact respects_exec sink alternative n
  | .missing =>
    rw [exec]
    exact respects_throw _

/-- So do statements one after the other. -/
lemma respects_execAll (sink : Sink) (body : List Stmt) (n : Nat) :
    Respects (Store.Alike n) (execAll sink body) := by
  match body with
  | [] =>
    rw [execAll]
    exact respects_pure _
  | stmt :: rest =>
    rw [execAll]
    exact (respects_exec sink stmt n).bind fun _ => respects_execAll sink rest n

end

end Execution

/-! ### Running a block -/

/-- Executing a single statement is executing it. -/
lemma execAll_singleton (sink : Sink) (stmt : Stmt) (s : Store) :
    execAll sink [stmt] s = exec sink stmt s := by
  rw [execAll]
  cases h : exec sink stmt s with
  | ok a t =>
    rw [bind_of_result_ok h]
    rfl
  | error e t => exact bind_of_result_error h

/-- Whatever variables a program starts with, in a block of its own it writes the same and ends in
the same way. -/
theorem run_block (sink : Sink) (brace : Token) (p : Program) (c : Chain) :
    (run sink [.block brace p] c).chunks = (run sink p c).chunks ∧
      (run sink [.block brace p] c).failure = (run sink p c).failure := by
  have hbody : SameResult (Store.Alike 0) (execAll sink p ⟨c.enter, []⟩) (execAll sink p ⟨c, []⟩) :=
    respects_execAll sink p 0 ⟨c.alike_enter, rfl⟩
  unfold run
  rw [execAll_singleton, exec, Exec.inNewScope]
  generalize execAll sink p ⟨c.enter, []⟩ = r, execAll sink p ⟨c, []⟩ = r' at hbody
  cases hbody with
  | ok _ h => exact ⟨congrArg List.reverse h.written, rfl⟩
  | error e h => exact ⟨congrArg List.reverse h.written, rfl⟩

/-- A block declares nothing around it. -/
lemma develops_run_block (sink : Sink) (brace : Token) (p : Program) (c : Chain) :
    Develops [] c (run sink [.block brace p] c).chain := by
  have hblock := declares_exec sink (.block brace p) ⟨c, []⟩
  unfold run
  rw [execAll_singleton]
  cases hresult : exec sink (.block brace p) ⟨c, []⟩ with
  | ok a t =>
    rw [hresult] at hblock
    obtain ⟨declared, hdeclared, hdevelops⟩ := hblock
    rwa [List.subset_nil.1 hdeclared] at hdevelops
  | error e t =>
    rw [hresult] at hblock
    exact hblock

/-- Where nothing is declared, nothing can be assigned to. -/
lemma Chain.Develops.eq_fresh {d : Chain} (h : Develops [] .fresh d) : d = .fresh := by
  generalize hnames : ([] : List Bytes) = names, hstart : Chain.fresh = start at h
  induction h with
  | refl => rfl
  | assign _ hassign ih =>
    rw [ih hnames hstart, ← hstart] at hassign
    cases hassign
  | define => cases hnames

/-! ### The script in braces -/

/-- A sign that nothing extends is a token whatever follows it. -/
lemma scanFrom_sign {s : Sign} {b : UInt8} (hs : s.text = [b]) (hb : b ≠ slash) (rest : Bytes)
    (hfront : Sign.front? (b :: rest) = some s) (line : Int) :
    scanFrom line (b :: rest) = (scanFrom line rest).map (⟨.sign s, [b], .nil, line⟩ :: ·) := by
  obtain ⟨hgap, hquote, hdigit, hletter⟩ := sign_facts hs
  have hpiece : piece b ([] ++ rest) = .ok ⟨([] : Bytes).length, some (.sign s, .nil)⟩ := by
    simp [piece, hgap, hb, hquote, hdigit, hletter, hfront, hs]
  have hstep := scanFrom_token hpiece line
  have hline : [b].count Bytes.newline = 0 := by
    refine List.count_eq_zero.2 fun hmem => ?_
    rw [← List.mem_singleton.1 hmem] at hgap
    cases hgap
  rw [hline] at hstep
  simpa using hstep

/-- A program in braces is a program: the block with its statements. -/
lemma exists_parse_braced {source : Bytes} {p : Program} (h : parse .failFast source = .ok p) :
    ∃ brace, parse .failFast (utf8 "\x7b" ++ source ++ utf8 "\n\x7d") =
      .ok [.block brace p] := by
  obtain ⟨B, last, hscan, htidy, rfl⟩ := exists_tidy_of_parse h
  obtain ⟨words, stop, hwords, hcarries⟩ := carries_of_tokenises (tokenises_iff.2 hscan)
  obtain ⟨rfl, -⟩ := List.append_inj' hwords rfl
  let opening : Word [.sign .leftBrace] := ⟨⟨.sign .leftBrace, utf8 "\x7b", .nil, 1⟩, by simp⟩
  let closing : Word [.sign .rightBrace] :=
    ⟨⟨.sign .rightBrace, utf8 "\x7d", .nil, stop + 1⟩, by simp⟩
  let block : StmtTree .declarations :=
    .more (.ofStatement (.ofBlock (.block opening B closing))) .nothing
  have hblock : block.Tidy := ⟨htidy, trivial⟩
  have hclosing : scanFrom (stop + 1) (utf8 "\x7d") =
      .ok [closing.1, Token.atEnd (stop + 1)] := by
    have hstep := scanFrom_sign (s := .rightBrace) rfl (by decide) [] rfl (stop + 1)
    rw [scanFrom] at hstep
    exact hstep
  have hopening := scanFrom_sign (s := .leftBrace) rfl (by decide) (source ++ utf8 "\n\x7d")
    (by cases source <;> rfl) 1
  have hbody : scanFrom 1 (source ++ utf8 "\n\x7d") =
      .ok (B.tokens ++ [closing.1, Token.atEnd (stop + 1)]) := by
    have hlines := hcarries (utf8 "\x7d")
    rw [hclosing] at hlines
    exact hlines
  rw [hbody] at hopening
  have htokens : block.tokens ++ [Token.atEnd (stop + 1)] =
      opening.1 :: (B.tokens ++ [closing.1, Token.atEnd (stop + 1)]) := by
    simp [block, StmtTree.tokens]
  have hbraced : scan (utf8 "\x7b" ++ source ++ utf8 "\n\x7d") =
      .ok (block.tokens ++ [Token.atEnd (stop + 1)]) := by
    rw [htokens]
    exact hopening
  exact ⟨opening.1, parse_of_tidy hblock hbraced⟩

/-- A script in braces is a program if the script is one, and no run tells the difference: it writes
the same chunks to any sink, and it ends with the same failure on the same line, or with none.  No
variable is left. -/
theorem braces_are_unobservable {mode : Mode} {source : Bytes} {p : Program}
    (h : parse mode source = .ok p) :
    ∃ braced, parse mode (utf8 "\x7b" ++ source ++ utf8 "\n\x7d") = .ok braced ∧
      ∀ sink, (run sink braced .fresh).chunks = (run sink p .fresh).chunks ∧
        (run sink braced .fresh).failure = (run sink p .fresh).failure ∧
          (run sink braced .fresh).chain = .fresh := by
  obtain ⟨brace, hbraced⟩ := exists_parse_braced (parse_eq_ok_iff_failFast.1 h)
  refine ⟨_, parse_eq_ok_iff_failFast.2 hbraced, fun sink => ?_⟩
  obtain ⟨hchunks, hfailure⟩ := run_block sink brace p .fresh
  exact ⟨hchunks, hfailure, (develops_run_block sink brace p .fresh).eq_fresh⟩

/-- A script with a variable that is shadowed, a conditional statement that an `else` could follow,
a comment up to the end, and a name that is nowhere declared. -/
theorem braces_are_unobservable_shadowed :
    ∃ p, parse .failFast
        (utf8 "var a = \"x\";\n\x7b var a = nil; print a; \x7d\nif (a) print b; // end") = .ok p ∧
      ∃ braced, parse .failFast (utf8 "\x7b" ++
          utf8 "var a = \"x\";\n\x7b var a = nil; print a; \x7d\nif (a) print b; // end" ++
            utf8 "\n\x7d") = .ok braced ∧
        ∀ sink, (run sink braced .fresh).chunks = (run sink p .fresh).chunks ∧
          (run sink braced .fresh).failure = (run sink p .fresh).failure ∧
            (run sink braced .fresh).chain = .fresh := by
  generalize hsource :
    utf8 "var a = \"x\";\n\x7b var a = nil; print a; \x7d\nif (a) print b; // end" = source
  have hread : (parse .failFast source).isOk = true := by
    rw [← hsource]
    decide +kernel
  cases hp : parse .failFast source with
  | error r =>
    rw [hp] at hread
    cases hread
  | ok p => exact ⟨p, rfl, braces_are_unobservable hp⟩

end LoxScript
