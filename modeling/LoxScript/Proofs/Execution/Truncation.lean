import LoxScript.Proofs.Execution.Sequence
import LoxScript.Proofs.Scope.Changes

/-!
# A sink that fails cuts the run off

The same program is run twice, once with a sink that accepts everything and once with a sink that
accepts `n` chunks.  Both runs do the same up to the first chunk that is refused.  If it comes to
that, the second run ends there, and what it leaves behind is what a shorter program leaves behind:
the program that is cut off at the print statement in question, so that its expression is evaluated
but nothing is printed, and nothing after it is left in the blocks around it.

`Truncates` says this of a part of a run, with a relation that tells what the parts that are cut off
lead to.  Its lemmas follow the ways in which parts are put together.
-/

namespace LoxScript

/-! ### Programs that are cut off -/

mutual

/-- The second statement is the first one, cut off at a print statement in it. -/
inductive Stmt.CutOff : Stmt → Stmt → Prop
  | print (keyword : Token) (e : Expr) : Stmt.CutOff (.print keyword e) (.expression keyword e)
  | block (brace : Token) {body front : List Stmt} :
      Program.CutOff body front → Stmt.CutOff (.block brace body) (.block brace front)
  | ifThen (keyword : Token) (condition : Expr) {consequence cut : Stmt} :
      Stmt.CutOff consequence cut →
        Stmt.CutOff (.ifThen keyword condition consequence) (.ifThen keyword condition cut)
  | consequence (keyword : Token) (condition : Expr) {consequence cut : Stmt}
      (alternative : Stmt) :
      Stmt.CutOff consequence cut →
        Stmt.CutOff (.ifElse keyword condition consequence alternative)
          (.ifElse keyword condition cut alternative)
  | alternative (keyword : Token) (condition : Expr) (consequence : Stmt)
      {alternative cut : Stmt} :
      Stmt.CutOff alternative cut →
        Stmt.CutOff (.ifElse keyword condition consequence alternative)
          (.ifElse keyword condition consequence cut)

/-- The second program is the first one up to a statement, which is cut off itself. -/
inductive Program.CutOff : List Stmt → List Stmt → Prop
  | here {stmt cut : Stmt} (rest : List Stmt) :
      Stmt.CutOff stmt cut → Program.CutOff (stmt :: rest) [cut]
  | later (stmt : Stmt) {rest front : List Stmt} :
      Program.CutOff rest front → Program.CutOff (stmt :: rest) (stmt :: front)

end

/-! ### Parts of a run -/

/-- The part adds to what was written and takes nothing away. -/
def Appends {α : Type} (x : Exec α) : Prop :=
  ∀ s, s.written <:+ (stateAfter (x s)).written

lemma Oblivious.appends {α : Type} {x : Exec α} (h : Oblivious x) : Appends x := by
  intro s
  have hlater := h ⟨s.chain, []⟩ s.written
  rw [List.nil_append] at hlater
  rw [hlater]
  cases x ⟨s.chain, []⟩ <;> exact List.suffix_append _ _

/-- The first computation is the second one with a sink that accepts `n` chunks, of which some may
have been written before.  It does the same as long as there are no more than `n`.  Otherwise it
fails when there are `n`, in a store to which the relation leads. -/
def Truncates (n : Nat) (reason : Bytes) (x full : Exec Unit) (leads : Store → Store → Prop) :
    Prop :=
  ∀ s, s.written.length ≤ n →
    ((stateAfter (full s)).written.length ≤ n ∧ x s = full s) ∨
      (n < (stateAfter (full s)).written.length ∧
        ∃ t, leads s t ∧ x s = .error (.refused reason) t ∧
          t.written <:+ (stateAfter (full s)).written ∧ t.written.length = n)

section Parts

variable {n : Nat} {reason : Bytes} {x x' full full' : Exec Unit}
  {leads leads' : Store → Store → Prop}

lemma Truncates.mono (h : Truncates n reason x full leads)
    (himp : ∀ s t, leads s t → leads' s t) : Truncates n reason x full leads' := by
  intro s hn
  rcases h s hn with hsame | ⟨hlt, t, ht, hcut⟩
  · exact .inl hsame
  · exact .inr ⟨hlt, t, himp s t ht, hcut⟩

/-- A part that writes nothing is the same with any sink. -/
lemma truncates_of_silent (h : ∀ s, (stateAfter (x s)).written = s.written) :
    Truncates n reason x x leads := by
  intro s hn
  refine .inl ⟨?_, rfl⟩
  rw [h s]
  exact hn

lemma truncates_write (chunk : Bytes) :
    Truncates n reason (Exec.write (.limited n reason) chunk) (Exec.write .unlimited chunk)
      fun s t => t = s := by
  intro s hn
  have hfull : Exec.write .unlimited chunk s = .ok () { s with written := chunk :: s.written } :=
    rfl
  rw [hfull]
  unfold Exec.write Sink.limited
  by_cases hlt : s.written.length < n
  · exact .inl ⟨hlt, by simp [hlt]⟩
  · exact .inr ⟨Nat.lt_succ_of_le (Nat.not_lt.1 hlt), s, rfl, by simp [hlt],
      List.suffix_cons _ _, Nat.le_antisymm hn (Nat.not_lt.1 hlt)⟩

/-- The second part is cut off only if the first one is not. -/
lemma Truncates.andThen (h : Truncates n reason x full leads)
    (h' : Truncates n reason x' full' leads') (happends : Appends full') :
    Truncates n reason (x >>= fun _ => x') (full >>= fun _ => full') fun s t =>
      leads s t ∨ ∃ u, full s = .ok () u ∧ leads' u t := by
  intro s hn
  cases hfirst : full s with
  | error e u =>
    rw [bind_of_result_error hfirst]
    rcases h s hn with ⟨hle, hsame⟩ | ⟨hlt, t, ht, hcut, hsuffix, hlength⟩
    · rw [hfirst] at hle hsame
      exact .inl ⟨hle, bind_of_result_error hsame⟩
    · rw [hfirst] at hlt hsuffix
      exact .inr ⟨hlt, t, .inl ht, bind_of_result_error hcut, hsuffix, hlength⟩
  | ok a u =>
    rw [bind_of_result_ok hfirst]
    rcases h s hn with ⟨hle, hsame⟩ | ⟨hlt, t, ht, hcut, hsuffix, hlength⟩
    · rw [hfirst] at hle hsame
      rw [bind_of_result_ok hsame]
      rcases h' u hle with hsecond | ⟨hlt, t, ht, hcut⟩
      · exact .inl hsecond
      · exact .inr ⟨hlt, t, .inr ⟨u, hfirst, ht⟩, hcut⟩
    · -- What the second part would add does not matter: there are too many chunks already.
      rw [hfirst] at hlt hsuffix
      have hmore := happends u
      exact .inr ⟨Nat.lt_of_lt_of_le hlt hmore.length_le, t, .inl ht, bind_of_result_error hcut,
        hsuffix.trans hmore, hlength⟩

/-- Evaluating an expression writes nothing. -/
lemma truncates_evaluate_bind (e : Expr) {f full : Value → Exec Unit}
    (leads : Value → Store → Store → Prop)
    (h : ∀ v, Truncates n reason (f v) (full v) (leads v)) :
    Truncates n reason (Exec.evaluate e >>= f) (Exec.evaluate e >>= full) fun s t =>
      ∃ v u, Exec.evaluate e s = .ok v u ∧ leads v u t := by
  intro s hn
  cases heval : Exec.evaluate e s with
  | error err u =>
    obtain ⟨c, -, hu⟩ := Exec.evaluate_eq_error_iff.1 heval
    rw [bind_of_result_error heval, bind_of_result_error heval]
    refine .inl ⟨?_, rfl⟩
    rw [hu]
    exact hn
  | ok v u =>
    obtain ⟨c, -, hu⟩ := Exec.evaluate_eq_ok_iff.1 heval
    have hwritten : u.written.length ≤ n := by
      rw [hu]
      exact hn
    rw [bind_of_result_ok heval, bind_of_result_ok heval]
    rcases h v u hwritten with hsame | ⟨hlt, t, ht, hcut⟩
    · exact .inl hsame
    · exact .inr ⟨hlt, t, ⟨v, u, heval, ht⟩, hcut⟩

lemma truncates_evaluate_of_silent (e : Expr) {f : Value → Exec Unit}
    (h : ∀ v s, (stateAfter (f v s)).written = s.written) :
    Truncates n reason (Exec.evaluate e >>= f) (Exec.evaluate e >>= f) leads := by
  refine (truncates_evaluate_bind e (fun _ _ _ => False) fun v => truncates_of_silent (h v)).mono ?_
  rintro s t ⟨v, u, -, ⟨⟩⟩

/-- A refusal inside a scope of its own leaves that scope. -/
lemma Truncates.inNewScope (h : Truncates n reason x full leads) :
    Truncates n reason (Exec.inNewScope x) (Exec.inNewScope full) fun s t =>
      ∃ u, leads { s with chain := s.chain.enter } u ∧ t = { u with chain := u.chain.leave } := by
  intro s hn
  have hwritten : (stateAfter (Exec.inNewScope full s)).written =
      (stateAfter (full { s with chain := s.chain.enter })).written := by
    unfold Exec.inNewScope
    cases full { s with chain := s.chain.enter } <;> rfl
  rw [hwritten]
  rcases h { s with chain := s.chain.enter } hn with
    ⟨hle, hsame⟩ | ⟨hlt, t, ht, hcut, hsuffix, hlength⟩
  · refine .inl ⟨hle, ?_⟩
    unfold Exec.inNewScope
    rw [hsame]
  · refine .inr ⟨hlt, { t with chain := t.chain.leave }, ⟨t, ht, rfl⟩, ?_, hsuffix, hlength⟩
    unfold Exec.inNewScope
    rw [hcut]

end Parts

/-! ### Statements -/

lemma execAll_singleton_of_ok {sink : Sink} {stmt : Stmt} {s t : Store}
    (h : exec sink stmt s = .ok () t) : execAll sink [stmt] s = .ok () t := by
  rw [execAll, bind_of_result_ok h]
  rfl

mutual

/-- A statement that is refused a chunk does what it does when it is cut off there. -/
lemma truncates_exec (n : Nat) (reason : Bytes) (stmt : Stmt) :
    Truncates n reason (exec (.limited n reason) stmt) (exec .unlimited stmt) fun s t =>
      ∃ cut, stmt.CutOff cut ∧ exec .unlimited cut s = .ok () t := by
  match stmt with
  | .expression _ e =>
    rw [exec, exec]
    exact truncates_evaluate_of_silent e fun v s => rfl
  | .print keyword e =>
    rw [exec, exec]
    refine (truncates_evaluate_bind e _ fun v => truncates_write _).mono ?_
    rintro s t ⟨v, u, heval, rfl⟩
    refine ⟨_, .print keyword e, ?_⟩
    rw [exec, bind_of_result_ok heval]
    rfl
  | .var _ name none =>
    rw [exec, exec]
    exact truncates_of_silent fun s => rfl
  | .var _ name (some e) =>
    rw [exec, exec]
    exact truncates_evaluate_of_silent e fun v s => rfl
  | .block brace body =>
    rw [exec, exec]
    refine (truncates_execAll n reason body).inNewScope.mono ?_
    rintro s t ⟨u, ⟨front, hcut, hfront⟩, rfl⟩
    refine ⟨_, .block brace hcut, ?_⟩
    rw [exec, Exec.inNewScope, hfront]
  | .ifThen keyword condition consequence =>
    rw [exec, exec]
    refine (truncates_evaluate_bind condition (fun c u t =>
      c.isTruthy = true ∧ ∃ cut, consequence.CutOff cut ∧ exec .unlimited cut u = .ok () t)
      fun c => ?_).mono ?_
    · cases c.isTruthy with
      | true => exact (truncates_exec n reason consequence).mono fun s t h => ⟨rfl, h⟩
      | false => exact truncates_of_silent fun s => rfl
    · rintro s t ⟨c, u, heval, htruthy, cut, hcut, hexec⟩
      refine ⟨_, .ifThen keyword condition hcut, ?_⟩
      rw [exec, bind_of_result_ok heval, if_pos htruthy, hexec]
  | .ifElse keyword condition consequence alternative =>
    rw [exec, exec]
    refine (truncates_evaluate_bind condition (fun c u t =>
      (c.isTruthy = true ∧ ∃ cut, consequence.CutOff cut ∧ exec .unlimited cut u = .ok () t) ∨
        (c.isTruthy = false ∧ ∃ cut, alternative.CutOff cut ∧ exec .unlimited cut u = .ok () t))
      fun c => ?_).mono ?_
    · cases c.isTruthy with
      | true => exact (truncates_exec n reason consequence).mono fun s t h => .inl ⟨rfl, h⟩
      | false => exact (truncates_exec n reason alternative).mono fun s t h => .inr ⟨rfl, h⟩
    · rintro s t ⟨c, u, heval, ⟨htruthy, cut, hcut, hexec⟩ | ⟨hfalsy, cut, hcut, hexec⟩⟩
      · refine ⟨_, .consequence keyword condition alternative hcut, ?_⟩
        rw [exec, bind_of_result_ok heval, if_pos htruthy, hexec]
      · refine ⟨_, .alternative keyword condition consequence hcut, ?_⟩
        rw [exec, bind_of_result_ok heval, if_neg (Bool.eq_false_iff.1 hfalsy), hexec]
  | .missing =>
    rw [exec, exec]
    exact truncates_of_silent fun s => rfl

lemma truncates_execAll (n : Nat) (reason : Bytes) (p : List Stmt) :
    Truncates n reason (execAll (.limited n reason) p) (execAll .unlimited p) fun s t =>
      ∃ front, Program.CutOff p front ∧ execAll .unlimited front s = .ok () t := by
  match p with
  | [] =>
    rw [execAll, execAll]
    exact truncates_of_silent fun s => rfl
  | stmt :: rest =>
    rw [execAll, execAll]
    refine ((truncates_exec n reason stmt).andThen (truncates_execAll n reason rest)
      (oblivious_execAll rest).appends).mono ?_
    rintro s t (⟨cut, hcut, hexec⟩ | ⟨u, hstmt, front, hcut, hfront⟩)
    · exact ⟨_, .here rest hcut, execAll_singleton_of_ok hexec⟩
    · refine ⟨_, .later stmt hcut, ?_⟩
      rw [execAll, bind_of_result_ok hstmt, hfront]

end

/-- What was written first stands at the end of what was written. -/
lemma reverse_eq_take_of_suffix {l m : List Bytes} (h : l <:+ m) :
    l.reverse = m.reverse.take l.length := by
  rw [← List.length_reverse]
  exact List.prefix_iff_eq_take.1 (List.reverse_prefix.2 h)

/-- A failing sink only truncates.  If a program writes at most `n` chunks, its run with a sink that
accepts `n` of them is the same in all respects as its run with a sink that accepts everything.
Otherwise the first `n` chunks are written, the run fails because of the sink, and the variables are
those of the program that is cut off at the print statement in question: it runs without failure,
has the same output, and has none of the statements that would come afterwards. -/
theorem limited_sink_truncates (n : Nat) (reason : Bytes) (p : Program) (c : Chain) :
    let full := run .unlimited p c
    let cut := run (.limited n reason) p c
    (full.chunks.length ≤ n → cut = full) ∧
      (n < full.chunks.length →
        cut.chunks = full.chunks.take n ∧ cut.failure = some (.refused reason) ∧
          ∃ front, Program.CutOff p front ∧
            run .unlimited front c = ⟨cut.chain, cut.chunks, none⟩) := by
  intro full cut
  have hchunks : full.chunks = (stateAfter (execAll .unlimited p ⟨c, []⟩)).written.reverse := by
    unfold full run Outcome.ofResult
    cases execAll .unlimited p ⟨c, []⟩ <;> rfl
  rw [hchunks, List.length_reverse]
  rcases truncates_execAll n reason p ⟨c, []⟩ (Nat.zero_le n) with
    ⟨hle, hsame⟩ | ⟨hlt, t, ⟨front, hcut, hfront⟩, hfails, hsuffix, hlength⟩
  · refine ⟨fun _ => ?_, fun hlt => absurd hle (Nat.not_le.2 hlt)⟩
    unfold cut full run
    rw [hsame]
  · refine ⟨fun hle => absurd hle (Nat.not_le.2 hlt), fun _ => ?_⟩
    have hrun : cut = ⟨t.chain, t.written.reverse, some (.refused reason)⟩ := by
      unfold cut run
      rw [hfails]
      rfl
    rw [hrun]
    refine ⟨?_, rfl, front, hcut, ?_⟩
    · rw [reverse_eq_take_of_suffix hsuffix, hlength]
    · unfold run
      rw [hfront]
      rfl

end LoxScript
