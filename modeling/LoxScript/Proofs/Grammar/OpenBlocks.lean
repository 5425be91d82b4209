import Mathlib.Algebra.Ring.Int.Defs
import LoxScript.Proofs.Grammar.MistakeOrder
import LoxScript.Proofs.Grammar.Phrase

/-!
# Texts that end inside blocks

When a text ends too early, reading that stops at the first mistake has one mistake, at the end.
Reading that goes on after mistakes gives up the declaration that is not finished, and then finds
that each block around it is not closed: it has one mistake for each open block, and one more unless
the text ends where the innermost block could be closed.

So the two agree that a text merely ends too early exactly if that number is one.
-/

namespace LoxScript.Grammar

open LoxScript.Parser

/-! ### Braces -/

/-- A brace opens a block or closes one. -/
def braces (t : Token) : Int :=
  if t.kind = .sign .leftBrace then 1 else if t.kind = .sign .rightBrace then -1 else 0

/-- How many blocks the tokens open, less those they close. -/
def opens (ts : List Token) : Int :=
  (ts.map braces).sum

@[simp] lemma opens_nil : opens [] = 0 := rfl

@[simp] lemma opens_cons (t : Token) (ts : List Token) : opens (t :: ts) = braces t + opens ts := by
  simp [opens]

@[simp] lemma opens_append (ts us : List Token) : opens (ts ++ us) = opens ts + opens us := by
  simp [opens]

lemma braces_of_leftBrace {t : Token} (h : t.kind = .sign .leftBrace) : braces t = 1 := by
  rw [braces, if_pos h]

lemma braces_of_rightBrace {t : Token} (h : t.kind = .sign .rightBrace) : braces t = -1 := by
  rw [braces, h]
  rfl

/-- The kinds of braces. -/
def braceKinds : List Kind :=
  [.sign .leftBrace, .sign .rightBrace]

lemma notMem_braceKinds : ∀ kind ∈ clauseKinds, kind ∉ braceKinds := by
  decide

lemma opens_of_forall {ts : List Token} (h : ∀ t ∈ ts, t.kind ∉ braceKinds) : opens ts = 0 := by
  induction ts with
  | nil => rfl
  | cons t ts ih =>
    obtain ⟨ht, hts⟩ := List.forall_mem_cons.1 h
    simp only [braceKinds, List.mem_cons, List.not_mem_nil, or_false, not_or] at ht
    rw [opens_cons, ih hts, braces, if_neg ht.1, if_neg ht.2, Int.add_zero]

/-! ### Failures for want of a brace -/

/-- What is missing besides the braces of the open blocks. -/
def unfinished (cause : SyntaxError.Cause) : Int :=
  if cause = .expected .braceAfterBlock then 0 else 1

lemma unfinished_of_ne {cause : SyntaxError.Cause} (h : cause ≠ .expected .braceAfterBlock) :
    unfinished cause = 1 := by
  rw [unfinished, if_neg h]

/-- The parser never fails for want of the brace that closes a block. -/
def NeverBrace {α : Type} (p : Parser α) : Prop :=
  ∀ ⦃ts : List Token⦄ ⦃f : Failure⦄, (p ts).result = .error f →
    f.cause ≠ .expected .braceAfterBlock

lemma NeverBrace.bind {α β : Type} {p : Parser α} {g : α → Parser β} (hp : NeverBrace p)
    (hg : ∀ a, NeverBrace (g a)) : NeverBrace (p >>= g) := by
  intro ts f h
  rcases result_bind_eq_error.1 h with herror | ⟨a, mid, -, herror⟩
  · exact hp herror
  · exact hg a herror

lemma neverBrace_expect (kind : Kind) {what : Expected} (hwhat : what ≠ .braceAfterBlock) :
    NeverBrace (expect kind what) := by
  intro ts f h hcause
  rw [eq_of_result_expect_eq_error h] at hcause
  exact hwhat (SyntaxError.Cause.expected.inj hcause)

lemma phrasal_neverBrace : Phrasal phraseKinds fun {α} (p _ : Parser α) => NeverBrace p where
  pure _ _ _ h := by cases h
  bind := NeverBrace.bind
  traced _ h := h
  accept? _ _ _ h := absurd h result_accept?_ne_error
  expect _ hwhat := neverBrace_expect _ hwhat
  fail := by
    intro α ts f h
    cases h
    exact nofun

lemma neverBrace_expression (fuel : Nat) : NeverBrace (expression fuel) := by
  have hsucc : ∀ fuel, NeverBrace (unary fuel) → NeverBrace (assignment fuel) →
      NeverBrace (assignment (fuel + 1)) := fun fuel =>
    phrasal_neverBrace.assignment_succ (fun _ _ h => by cases h) fun _ _ _ h => by
      cases h
      exact nofun
  exact (phrasal_neverBrace.expression_assignment_unary hsucc fuel).1

/-! ### Running out of text -/

/-- As many failures as given were overcome, all of them at the end of the text. -/
structure OvercameAtEnd {α : Type} (r : Reply α) (n : Int) : Prop where
  atEnd : ∀ f ∈ r.overcome, f.blamed = []
  length : (r.overcome.length : Int) = n

/-- The failures that were overcome are all that counts. -/
lemma OvercameAtEnd.congr {α β : Type} {r : Reply α} {r' : Reply β} {n : Int}
    (h : OvercameAtEnd r n) (heq : r'.overcome = r.overcome) : OvercameAtEnd r' n := by
  refine ⟨?_, ?_⟩
  · rw [heq]
    exact h.atEnd
  · rw [heq]
    exact h.length

/-- The strict parser takes whole blocks when it succeeds.  When it runs out of text, the lenient
one does so too, and has overcome a failure for everything that is missing but the last thing. -/
structure RunsOut {α : Type} (strict lenient : Parser α) : Prop where
  agrees : ∀ ts, Agrees (strict ts) (lenient ts)
  balanced : ∀ ⦃ts a rest⦄, (strict ts).result = .ok (a, rest) → opens ts = opens rest
  overcame : ∀ ⦃ts f⦄, (strict ts).result = .error f → f.blamed = [] →
    (∃ g, (lenient ts).result = .error g ∧ g.blamed = []) ∧
      OvercameAtEnd (lenient ts) (opens ts + unfinished f.cause - 1)

section RunsOut

variable {α β : Type} {p q : Parser α} {f g : α → Parser β}

/-- Without braces there is nothing to overcome. -/
lemma RunsOut.of_spares (hspares : Spares braceKinds p) (hretains : Retains p)
    (hcause : NeverBrace p) (hovercome : ∀ ts, (p ts).overcome = []) : RunsOut p p := by
  refine ⟨fun ts => .refl (hovercome ts), fun ts a rest hok => ?_, fun ts f hf hblamed => ?_⟩
  · obtain ⟨taken, htaken, hkinds⟩ := hspares ts
    rw [left_of_ok hok] at htaken
    rw [htaken, opens_append, opens_of_forall hkinds, Int.zero_add]
  · obtain ⟨taken, htaken, hkinds⟩ := hspares ts
    have hunread : f.unread = [] := List.suffix_nil.1 (hblamed ▸ hretains hf)
    rw [left_of_error hf, hunread, List.append_nil] at htaken
    refine ⟨⟨f, hf, hblamed⟩, ?_, ?_⟩
    · rw [hovercome]
      exact List.forall_mem_nil _
    · rw [hovercome, htaken, opens_of_forall hkinds, unfinished_of_ne (hcause hf)]
      rfl

lemma RunsOut.bind (hp : RunsOut p q) (hf : ∀ a, RunsOut (f a) (g a)) :
    RunsOut (p >>= f) (q >>= g) := by
  refine ⟨fun ts => (hp.agrees ts).bind fun a rest => (hf a).agrees rest, ?_, ?_⟩
  · intro ts b rest hok
    obtain ⟨a, mid, hmid, hrest⟩ := result_bind_eq_ok.1 hok
    exact (hp.balanced hmid).trans ((hf a).balanced hrest)
  · intro ts failure herror hblamed
    rcases result_bind_eq_error.1 herror with hfirst | ⟨a, mid, hmid, hsecond⟩
    · obtain ⟨⟨failure', hfailure', hend⟩, hovercame⟩ := hp.overcame hfirst hblamed
      rw [bind_of_error hfailure']
      exact ⟨⟨failure', rfl, hend⟩, hovercame.congr rfl⟩
    · obtain ⟨hlast, hovercame⟩ := (hf a).overcame hsecond hblamed
      obtain ⟨hnil, hmid'⟩ := (hp.agrees ts).of_ok hmid
      rw [bind_of_ok hmid', hnil, hp.balanced hmid]
      exact ⟨hlast, hovercame.congr rfl⟩

lemma RunsOut.traced (rule : Rule) (h : RunsOut p q) :
    RunsOut (traced rule p) (traced rule q) := by
  refine ⟨fun ts => ⟨(h.agrees ts).1, (h.agrees ts).2⟩, h.balanced, fun ts f hf hblamed => ?_⟩
  obtain ⟨hlast, hovercame⟩ := h.overcame hf hblamed
  exact ⟨hlast, hovercame.congr rfl⟩

lemma runsOut_unread : RunsOut unread unread :=
  .of_spares (.of_left_eq fun _ => rfl) (fun _ _ h => by cases h) (fun _ _ h => by cases h)
    fun _ => rfl

/-- Running out of text passes from parts to wholes, as long as they have no braces. -/
lemma phrasal_runsOut : Phrasal clauseKinds fun {α} (p q : Parser α) => RunsOut p q where
  pure a := .of_spares (.of_left_eq fun _ => rfl) (sequential_retains.pure a)
    (fun _ _ h => by cases h) fun _ => rfl
  bind := RunsOut.bind
  traced := RunsOut.traced
  accept? {accepted} hsub :=
    .of_spares (spares_accept? fun kind hkind => notMem_braceKinds kind (hsub hkind))
      (retains_accept? accepted) (fun _ _ h => absurd h result_accept?_ne_error)
      fun _ => overcome_accept? accepted
  expect {kind what} hkind hwhat :=
    .of_spares (spares_expect (notMem_braceKinds kind hkind) what) (retains_expect kind what)
      (neverBrace_expect kind hwhat) fun _ => overcome_expect kind what
  fail := .of_spares (.of_left_eq fun _ => rfl) (sequential_retains.fail _)
    phrasal_neverBrace.fail fun _ => rfl

lemma runsOut_expression (fuel : Nat) : RunsOut (expression fuel) (expression fuel) :=
  .of_spares (spares_expression (by decide) fuel) (retains_expression fuel)
    (neverBrace_expression fuel) (overcome_expression fuel)

end RunsOut

/-! ### Statements -/

section Statements

variable {fuel : Nat}

/-- The strict parser takes whole blocks when it succeeds.  When it runs out of a text that has at
least one token, the lenient one comes to the end, and has overcome a failure for everything that is
missing. -/
structure Recovers {α : Type} (strict lenient : Parser α) : Prop where
  balanced : ∀ ⦃ts a rest⦄, (strict ts).result = .ok (a, rest) → opens ts = opens rest
  overcame : ∀ ⦃t ts f⦄, (strict (t :: ts)).result = .error f → f.blamed = [] →
    (∃ a, (lenient (t :: ts)).result = .ok (a, [])) ∧
      OvercameAtEnd (lenient (t :: ts)) (opens (t :: ts) + unfinished f.cause)

/-- A declaration that runs out of text is given up at the end. -/
lemma recovers_declaration_succ
    (h : RunsOut (attempt .failFast fuel) (attempt .recovering fuel)) :
    Recovers (declaration .failFast (fuel + 1)) (declaration .recovering (fuel + 1)) := by
  rw [declaration_succ, declaration_succ]
  refine ⟨fun ts o rest hok => ?_, fun t ts f hf hblamed => ?_⟩
  · obtain ⟨s, rfl, hs⟩ := result_recovering_failFast.1 hok
    exact h.balanced hs
  · rw [result_traced] at hf
    obtain ⟨⟨g, hg, hend⟩, hovercame⟩ := h.overcame (result_eq_error_of_recovering hf) hblamed
    have hunread : g.unread = [] := List.suffix_nil.1 (hend ▸ (orderly_attempt fuel).retains hg)
    have hskip := recovering_of_error hg
    rw [hunread] at hskip
    rw [traced, hskip]
    refine ⟨⟨none, rfl⟩, ?_, ?_⟩
    · exact List.forall_mem_append.2 ⟨hovercame.atEnd, List.forall_mem_singleton.2 hend⟩
    · have hlength := hovercame.length
      rw [List.length_append, List.length_singleton]
      omega

/-- Nothing is left to read after a declaration that is given up at the end. -/
lemma recovers_someDeclarations {closing : List Kind}
    (hdeclaration : Recovers (declaration .failFast fuel) (declaration .recovering fuel))
    (hdeclarations : Recovers (declarations .failFast closing fuel)
      (declarations .recovering closing fuel)) :
    Recovers (someDeclarations .failFast closing fuel)
      (someDeclarations .recovering closing fuel) := by
  refine ⟨fun ts p rest hok => ?_, fun t ts f hf hblamed => ?_⟩
  · obtain ⟨o, mid, hfirst, hlater⟩ := result_bind_eq_ok.1 hok
    obtain ⟨others, mid', hothers, hpure⟩ := result_bind_eq_ok.1 hlater
    cases hpure
    exact (hdeclaration.balanced hfirst).trans (hdeclarations.balanced hothers)
  · rcases result_bind_eq_error.1 hf with hfirst | ⟨o, mid, hfirst, hlater⟩
    · obtain ⟨⟨o, ho⟩, hovercame⟩ := hdeclaration.overcame hfirst hblamed
      have hnil := declarations_nil .recovering closing fuel
      refine ⟨⟨o.toList ++ [], ?_⟩, ?_⟩
      · rw [someDeclarations, result_bind_of_ok ho, result_bind_of_ok (by rw [hnil])]
        rfl
      · refine hovercame.congr ?_
        rw [overcome_someDeclarations ho, hnil, List.append_nil]
    · obtain ⟨hnil, ho⟩ :=
        ((agrees_statement_declaration_declarations fuel).2.1 (t :: ts)).of_ok hfirst
      rcases result_bind_eq_error.1 hlater with hothers | ⟨others, mid', -, hpure⟩
      · cases mid with
        | nil =>
          rw [declarations_nil] at hothers
          cases hothers
        | cons next mid =>
          obtain ⟨⟨others, hlast⟩, hovercame⟩ := hdeclarations.overcame hothers hblamed
          rw [hdeclaration.balanced hfirst]
          refine ⟨⟨o.toList ++ others, ?_⟩, ?_⟩
          · rw [someDeclarations, result_bind_of_ok ho, result_bind_of_ok hlast]
            rfl
          · refine hovercame.congr ?_
            rw [overcome_someDeclarations ho, hnil, List.nil_append]
      · cases hpure

lemma recovers_declarations_succ {closing : List Kind}
    (hdeclaration : Recovers (declaration .failFast fuel) (declaration .recovering fuel))
    (hdeclarations : Recovers (declarations .failFast closing fuel)
      (declarations .recovering closing fuel)) :
    Recovers (declarations .failFast closing (fuel + 1))
      (declarations .recovering closing (fuel + 1)) := by
  have hsome := recovers_someDeclarations hdeclaration hdeclarations
  refine ⟨fun ts p rest hok => ?_, fun t ts f hf hblamed => ?_⟩
  · cases ts with
    | nil =>
      rw [declarations_nil] at hok
      cases hok
      rfl
    | cons t ts =>
      by_cases hclosing : t.kind ∈ closing
      · rw [declarations_of_mem hclosing] at hok
        cases hok
        rfl
      · rw [declarations_cons hclosing] at hok
        exact hsome.balanced hok
  · by_cases hclosing : t.kind ∈ closing
    · rw [declarations_of_mem hclosing] at hf
      cases hf
    · rw [declarations_cons hclosing] at hf ⊢
      exact hsome.overcame hf hblamed

section Block

variable (h : Recovers (declarations .failFast [.sign .rightBrace] fuel)
  (declarations .recovering [.sign .rightBrace] fuel)) {brace : Token} {ts : List Token}

include h

/-- A block that is closed has taken one brace more than it holds. -/
lemma opens_blockStatement {s : Stmt} {rest : List Token}
    (hok : (blockStatement (declarations .failFast [.sign .rightBrace] fuel) brace ts).result =
      .ok (s, rest)) : 1 + opens ts = opens rest := by
  rw [blockStatement, result_traced] at hok
  obtain ⟨inner, mid, hinner, hlater⟩ := result_bind_eq_ok.1 hok
  obtain ⟨closing, mid', hclosing, rfl, hpure⟩ := result_expect_bind_eq_ok.1 hlater
  cases hpure
  rw [h.balanced hinner, opens_cons, braces_of_rightBrace (List.mem_singleton.1 hclosing)]
  omega

/-- When the text ends in a block, the brace that closes it is missing, after all that is missing
inside it. -/
lemma overcame_blockStatement {f : Failure}
    (hf : (blockStatement (declarations .failFast [.sign .rightBrace] fuel) brace ts).result =
      .error f) (hblamed : f.blamed = []) :
    (∃ g, (blockStatement (declarations .recovering [.sign .rightBrace] fuel) brace ts).result =
        .error g ∧ g.blamed = []) ∧
      OvercameAtEnd (blockStatement (declarations .recovering [.sign .rightBrace] fuel) brace ts)
        (opens ts + unfinished f.cause) := by
  -- Either way the lenient parser is at the end when it looks for the brace.
  obtain ⟨inner', hinner', hovercame⟩ :
      ∃ inner', (declarations .recovering [.sign .rightBrace] fuel ts).result = .ok (inner', []) ∧
        OvercameAtEnd (declarations .recovering [.sign .rightBrace] fuel ts)
          (opens ts + unfinished f.cause) := by
    rw [blockStatement, result_traced] at hf
    rcases result_bind_eq_error.1 hf with hinner | ⟨inner, mid, hinner, hlater⟩
    · cases ts with
      | nil =>
        rw [declarations_nil] at hinner
        cases hinner
      | cons t ts =>
        obtain ⟨⟨inner', hinner'⟩, hovercame⟩ := h.overcame hinner hblamed
        exact ⟨inner', hinner', hovercame⟩
    · rcases result_expect_bind_eq_error.1 hlater with ⟨-, rfl⟩ | ⟨t, mid', -, -, hpure⟩
      · obtain rfl : mid = [] := hblamed
        obtain ⟨hnil, hsame⟩ :=
          ((agrees_statement_declaration_declarations fuel).2.2 [.sign .rightBrace] ts).of_ok hinner
        refine ⟨inner, hsame, ?_, ?_⟩
        · rw [hnil]
          exact List.forall_mem_nil _
        · rw [hnil, h.balanced hinner]
          rfl
      · cases hpure
  have hmissing : ((expect (.sign .rightBrace) .braceAfterBlock >>= fun _ =>
      pure (.block brace inner') : Parser Stmt) []).result =
        .error ⟨.expected .braceAfterBlock, [], []⟩ := rfl
  rw [blockStatement, result_traced]
  refine ⟨⟨_, (result_bind_of_ok hinner').trans hmissing, rfl⟩, hovercame.congr ?_⟩
  rw [traced, bind_of_ok hinner']
  exact List.append_nil _

end Block

/-- A block that is opened and not closed is one open block more. -/
lemma runsOut_accept?_leftBrace {f g : Option Token → Parser Stmt}
    (h : Recovers (declarations .failFast [.sign .rightBrace] fuel)
      (declarations .recovering [.sign .rightBrace] fuel))
    (hf : ∀ brace, f (some brace) =
      blockStatement (declarations .failFast [.sign .rightBrace] fuel) brace)
    (hg : ∀ brace, g (some brace) =
      blockStatement (declarations .recovering [.sign .rightBrace] fuel) brace)
    (hnone : RunsOut (f none) (g none)) :
    RunsOut (accept? [.sign .leftBrace] >>= f) (accept? [.sign .leftBrace] >>= g) := by
  refine ⟨fun ts => (Agrees.refl (overcome_accept? _)).bind fun o rest => ?_, ?_, ?_⟩
  · cases o with
    | none => exact hnone.agrees rest
    | some brace =>
      rw [hf, hg]
      exact compositional_agrees.blockStatement
        ((agrees_statement_declaration_declarations fuel).2.2 _) brace rest
  · intro ts s rest hok
    rcases result_accept?_bind_eq_ok.1 hok with ⟨-, hlater⟩ | ⟨brace, mid, hbrace, rfl, hlater⟩
    · exact hnone.balanced hlater
    · rw [hf] at hlater
      rw [opens_cons, braces_of_leftBrace (List.mem_singleton.1 hbrace)]
      exact opens_blockStatement h hlater
  · intro ts failure herror hblamed
    by_cases hstarts : Starts [.sign .leftBrace] ts
    · obtain ⟨brace, mid, rfl, hbrace⟩ := hstarts.exists_cons
      have haccept : (accept? [.sign .leftBrace] (brace :: mid)).result = .ok (some brace, mid) :=
        result_accept?_cons hbrace
      rw [result_bind_of_ok haccept, hf] at herror
      obtain ⟨hlast, hovercame⟩ := overcame_blockStatement h herror hblamed
      rw [bind_of_ok haccept, hg, opens_cons, braces_of_leftBrace (List.mem_singleton.1 hbrace)]
      refine ⟨hlast, ?_⟩
      rw [show 1 + opens mid + unfinished failure.cause - 1 = opens mid + unfinished failure.cause
        by omega]
      exact hovercame.congr (by rw [overcome_accept?, List.nil_append])
    · have haccept := result_accept?_of_not_starts hstarts
      rw [result_bind_of_ok haccept] at herror
      obtain ⟨hlast, hovercame⟩ := hnone.overcame herror hblamed
      rw [bind_of_ok haccept]
      exact ⟨hlast, hovercame.congr (by rw [overcome_accept?, List.nil_append])⟩

lemma runsOut_statement_succ (hstatement : RunsOut (statement .failFast fuel)
      (statement .recovering fuel))
    (hdeclarations : Recovers (declarations .failFast [.sign .rightBrace] fuel)
      (declarations .recovering [.sign .rightBrace] fuel)) :
    RunsOut (statement .failFast (fuel + 1)) (statement .recovering (fuel + 1)) := by
  refine .traced _ (.bind (phrasal_runsOut.accept? (by decide)) fun keyword? => ?_)
  cases keyword? with
  | some keyword => exact phrasal_runsOut.ifStatement (runsOut_expression fuel) hstatement keyword
  | none =>
    refine .bind (phrasal_runsOut.accept? (by decide)) fun keyword? => ?_
    cases keyword? with
    | some keyword => exact phrasal_runsOut.printStatement (runsOut_expression fuel) keyword
    | none =>
      exact runsOut_accept?_leftBrace hdeclarations (fun _ => rfl) (fun _ => rfl)
        (phrasal_runsOut.expressionStatement runsOut_unread (runsOut_expression fuel))

end Statements

/-- With no bound left to read with, a declaration is refused where it begins. -/
lemma recovers_declaration_zero :
    Recovers (declaration .failFast 0) (declaration .recovering 0) := by
  refine ⟨fun ts o rest hok => ?_, fun t ts f hf hblamed => ?_⟩
  · cases hok
  · cases hf
    cases hblamed

/-- All rules recover from the end of the text with one failure for everything that is missing. -/
lemma runsOut_statement_declaration_declarations (fuel : Nat) :
    RunsOut (statement .failFast fuel) (statement .recovering fuel) ∧
      Recovers (declaration .failFast fuel) (declaration .recovering fuel) ∧
        ∀ closing, Recovers (declarations .failFast closing fuel)
          (declarations .recovering closing fuel) := by
  induction fuel with
  | zero =>
    refine ⟨phrasal_runsOut.fail, recovers_declaration_zero, fun closing => ⟨?_, ?_⟩⟩
    · intro ts p rest hok
      cases hok
      rfl
    · intro t ts f hf
      cases hf
  | succ fuel ih =>
    obtain ⟨hstatement, hdeclaration, hdeclarations⟩ := ih
    exact ⟨runsOut_statement_succ hstatement (hdeclarations _),
      recovers_declaration_succ
        (phrasal_runsOut.attempt .failFast .recovering (runsOut_expression fuel) hstatement),
      fun closing => recovers_declarations_succ hdeclaration (hdeclarations closing)⟩

/-! ### Incomplete texts -/

/-- How much is missing where a text ends too early: a brace for each open block, and the rest of
the declaration that is not finished, if there is one. -/
def missing (tokens : List Token) (e : SyntaxError) : Int :=
  opens (body tokens) + unfinished e.cause

section Tokens

variable {tokens : List Token} {e : SyntaxError}

/-- The first of the listed mistakes is the one at which strict reading stops. -/
lemma exists_overcome_of_first (h : (readTokens .failFast tokens).result = .error (.first e)) :
    ∃ f others, (program .failFast (body tokens)).result = .error f ∧
      (program .recovering (body tokens)).overcome = f :: others ∧
      e = .ofFailure (body tokens).length (stop tokens) f ∧
      (readTokens .recovering tokens).result = .error (.every
        ((f :: others).map (.ofFailure (body tokens).length (stop tokens)))) := by
  obtain ⟨f, hf, he⟩ := result_readTokens_failFast_eq_error.1 h
  obtain ⟨p, hlenient⟩ := exists_result_program_recovering (body tokens)
  have hstrict := (program_agrees (body tokens)).result_eq
  cases hovercome : (program .recovering (body tokens)).overcome with
  | nil =>
    rw [hovercome, hlenient, hf] at hstrict
    cases hstrict
  | cons first others =>
    rw [hovercome, hf] at hstrict
    obtain rfl : f = first := Except.error.inj hstrict
    refine ⟨f, others, hf, rfl, Rejection.first.inj he, ?_⟩
    rw [result_readTokens_recovering_eq_error, hovercome]
    exact ⟨List.cons_ne_nil f others, rfl⟩

/-- A text that ends too early has as many mistakes as things are missing, all of them at its
end. -/
lemma exists_errors_of_isAtEnd (h : (readTokens .failFast tokens).result = .error (.first e))
    (hend : e.isAtEnd = true) :
    ∃ errors, (readTokens .recovering tokens).result = .error (.every errors) ∧ errors ≠ [] ∧
      (∀ e' ∈ errors, e'.isAtEnd = true) ∧ (errors.length : Int) = missing tokens e := by
  obtain ⟨f, others, hf, hovercome, rfl, hevery⟩ := exists_overcome_of_first h
  have horder := inOrder_program (body tokens)
  rw [hovercome] at horder
  have hblamed := (isAtEnd_ofFailure (horder.blamed_suffix List.mem_cons_self)).1 hend
  obtain ⟨hatEnd, hlength⟩ : OvercameAtEnd (program .recovering (body tokens))
      (opens (body tokens) + unfinished f.cause) := by
    have hruns := (runsOut_statement_declaration_declarations (fuelFor (body tokens).length)).2.2 []
    rw [program] at hf ⊢
    revert hf hruns
    generalize fuelFor (body tokens).length = fuel
    cases body tokens with
    | nil =>
      intro hf _
      rw [declarations_nil] at hf
      cases hf
    | cons t ts =>
      intro hf hruns
      exact (hruns.overcame hf hblamed).2
  rw [hovercome] at hatEnd hlength
  refine ⟨_, hevery, List.cons_ne_nil _ _, fun e' he' => ?_, ?_⟩
  · obtain ⟨g, hg, rfl⟩ := List.mem_map.1 he'
    exact (isAtEnd_ofFailure (horder.blamed_suffix hg)).2 (hatEnd g hg)
  · rw [List.length_map]
    exact hlength

/-- A text that goes wrong before its end is not taken for incomplete. -/
lemma isIncomplete_every_of_not_isAtEnd
    (h : (readTokens .failFast tokens).result = .error (.first e)) (hend : e.isAtEnd = false) :
    ∃ r, (readTokens .recovering tokens).result = .error r ∧ r.isIncomplete = false := by
  obtain ⟨f, others, -, -, rfl, hevery⟩ := exists_overcome_of_first h
  refine ⟨_, hevery, ?_⟩
  cases others with
  | nil => exact hend
  | cons second others => rfl

lemma isIncomplete_every_eq_true_iff {errors : List SyntaxError} (hne : errors ≠ [])
    (hend : ∀ e ∈ errors, e.isAtEnd = true) :
    (Rejection.every errors).isIncomplete = true ↔ errors.length = 1 := by
  match errors, hne, hend with
  | [e], _, hend => simpa [Rejection.isIncomplete] using hend
  | _ :: _ :: _, _, _ => simp [Rejection.isIncomplete]

/-- The two modes agree whether a text is incomplete, unless several things are missing. -/
lemma exists_rejection_of_first (h : (readTokens .failFast tokens).result = .error (.first e)) :
    ∃ r, (readTokens .recovering tokens).result = .error r ∧
      (r.isIncomplete = true → e.isAtEnd = true) ∧
      (r.isIncomplete = e.isAtEnd ↔ (e.isAtEnd = true → missing tokens e = 1)) ∧
      (e.isAtEnd = true → ∃ errors, r = .every errors ∧ (∀ e' ∈ errors, e'.isAtEnd = true) ∧
        (errors.length : Int) = missing tokens e) := by
  cases hend : e.isAtEnd with
  | false =>
    obtain ⟨r, hr, hfalse⟩ := isIncomplete_every_of_not_isAtEnd h hend
    refine ⟨r, hr, fun htrue => ?_, ⟨fun _ => nofun, fun _ => hfalse⟩, nofun⟩
    rw [hfalse] at htrue
    cases htrue
  | true =>
    obtain ⟨errors, hevery, hne, hall, hlength⟩ := exists_errors_of_isAtEnd h hend
    refine ⟨_, hevery, fun _ => rfl, ?_, fun _ => ⟨errors, rfl, hall, hlength⟩⟩
    rw [isIncomplete_every_eq_true_iff hne hall, ← hlength]
    constructor
    · intro hone _
      rw [hone]
      rfl
    · intro hone
      exact Int.natCast_inj.1 (hone rfl)

end Tokens

/-- A script that is rejected, with the answer whether it is incomplete. -/
lemma exists_rejection (mode : Mode) (source : Bytes) (verdict : Bool)
    (h : (match parse mode source with
      | .error r => some r.isIncomplete
      | .ok _ => none) = some verdict) :
    ∃ r, parse mode source = .error r ∧ r.isIncomplete = verdict := by
  cases hparse : parse mode source with
  | error r =>
    rw [hparse] at h
    exact ⟨r, rfl, Option.some.inj h⟩
  | ok p =>
    rw [hparse] at h
    cases h

/-- Reading that goes on after mistakes takes no other texts for incomplete than reading that stops
at the first one does.  Of those that end too early, it lists a mistake for each thing that is
missing, and takes a text for incomplete exactly if that is one. -/
theorem isIncomplete_agrees_iff_one_missing (source : Bytes) (r : Rejection)
    (h : parse .failFast source = .error r) :
    ∃ r', parse .recovering source = .error r' ∧
      (r'.isIncomplete = true → r.isIncomplete = true) ∧
      (r'.isIncomplete = r.isIncomplete ↔ ∀ tokens e, scan source = .ok tokens → r = .first e →
        e.isAtEnd = true → missing tokens e = 1) ∧
      ∀ tokens e, scan source = .ok tokens → r = .first e → e.isAtEnd = true →
        ∃ errors, r' = .every errors ∧ (∀ e' ∈ errors, e'.isAtEnd = true) ∧
          (errors.length : Int) = missing tokens e := by
  unfold parse readSource at h ⊢
  cases hscan : scan source with
  | error lexical =>
    rw [hscan] at h
    cases h
    refine ⟨_, rfl, id, ⟨fun _ tokens e htokens => ?_, fun _ => rfl⟩, fun tokens e htokens => ?_⟩
    · cases htokens
    · cases htokens
  | ok tokens =>
    rw [hscan] at h
    obtain ⟨f, -, rfl⟩ := result_readTokens_failFast_eq_error.1 h
    obtain ⟨r', hr', hlenient, hagrees, herrors⟩ := exists_rejection_of_first h
    refine ⟨r', hr', hlenient, ⟨fun hsame => ?_, fun hmissing => ?_⟩, ?_⟩
    · rintro tokens' e ⟨⟩ ⟨⟩
      exact hagrees.1 hsame
    · exact hagrees.2 (hmissing tokens _ rfl rfl)
    · rintro tokens' e ⟨⟩ ⟨⟩
      exact herrors

/-- Where the text ends behind the last statement of a block, only the brace of the block is
missing. -/
theorem isIncomplete_agrees_iff_one_missing_brace :
    let source := utf8 "\x7b var x; \x7b print x; \x7d"
    ∃ r r', parse .failFast source = .error r ∧ parse .recovering source = .error r' ∧
      r.isIncomplete = true ∧ r'.isIncomplete = true := by
  intro source
  obtain ⟨r, hr, hincomplete⟩ := exists_rejection .failFast source true (by decide +kernel)
  obtain ⟨r', hr', -, hagrees, -⟩ := isIncomplete_agrees_iff_one_missing source r hr
  have hsame : r'.isIncomplete = r.isIncomplete := by
    refine hagrees.2 fun tokens e htokens he _ => ?_
    have hmissing : (match scan source, parse .failFast source with
        | .ok tokens, .error (.first e) => missing tokens e
        | _, _ => 1) = 1 := by decide +kernel
    rwa [htokens, hr, he] at hmissing
  exact ⟨r, r', hr, hr', hincomplete, hsame.trans hincomplete⟩

/-- In a block that is open where the text ends inside of a statement, two things are missing.  Only
reading that stops at the first mistake takes the text for incomplete. -/
theorem isIncomplete_differs_inside_block :
    let source := utf8 "\x7b print x"
    ∃ r r', parse .failFast source = .error r ∧ parse .recovering source = .error r' ∧
      r.isIncomplete = true ∧ r'.isIncomplete = false := by
  intro source
  obtain ⟨r, hr, hincomplete⟩ := exists_rejection .failFast source true (by decide +kernel)
  obtain ⟨r', hr', hcomplete⟩ := exists_rejection .recovering source false (by decide +kernel)
  exact ⟨r, r', hr, hr', hincomplete, hcomplete⟩

end LoxScript.Grammar
