import Mathlib.Tactic.SplitIfs
import LoxScript.Proofs.Grammar.Compositional
import LoxScript.Proofs.Grammar.Soundness

/-!
# The two modes of reading agree

Reading that goes on after mistakes and reading that stops at the first one take the same way up to
the first mistake.  So the one finds mistakes exactly when the other does, the first mistake is the
same, and without mistakes the programs are the same.

That the first mode always comes to the end of the text, and so never stops at a mistake after all,
is because every declaration takes at least one token, also a broken one.
-/

namespace LoxScript.Grammar

open LoxScript.Parser

/-! ### The same way up to the first mistake -/

/-- A strict reply is what a lenient one gives if it had to stop at the first failure it
overcame. -/
structure Agrees {α : Type} (strict lenient : Reply α) : Prop where
  overcome_eq : strict.overcome = []
  result_eq : strict.result =
    match lenient.overcome with
    | [] => lenient.result
    | first :: _ => .error first

/-- A reply that overcame nothing agrees with itself. -/
lemma Agrees.refl {α : Type} {r : Reply α} (h : r.overcome = []) : Agrees r r :=
  ⟨h, by rw [h]⟩

section Agrees

variable {α : Type} {strict lenient : Reply α}

/-- Where nothing was overcome, the results are the same. -/
lemma Agrees.result_of_overcome_eq_nil (h : Agrees strict lenient)
    (hnil : lenient.overcome = []) : lenient.result = strict.result := by
  rw [h.result_eq, hnil]

/-- Where the strict reply is a success, nothing was overcome, and the lenient one is the same. -/
lemma Agrees.of_ok (h : Agrees strict lenient) {r : α × List Token}
    (hok : strict.result = .ok r) : lenient.overcome = [] ∧ lenient.result = .ok r := by
  have hresult := h.result_eq
  cases hovercome : lenient.overcome with
  | nil => exact ⟨rfl, (h.result_of_overcome_eq_nil hovercome).trans hok⟩
  | cons first others =>
    rw [hovercome, hok] at hresult
    cases hresult

end Agrees

/-- Strict and lenient parsers in sequence agree when their parts do. -/
lemma Agrees.bind {α β : Type} {p q : Parser α} {f g : α → Parser β} {ts : List Token}
    (hp : Agrees (p ts) (q ts)) (hf : ∀ a rest, Agrees (f a rest) (g a rest)) :
    Agrees ((p >>= f) ts) ((q >>= g) ts) := by
  obtain ⟨hovercome, hresult⟩ := hp
  cases hq : (q ts).overcome with
  | cons first others =>
    -- The strict side has stopped already, and the lenient one keeps its first failure.
    rw [hq] at hresult
    rw [bind_of_error hresult]
    refine ⟨hovercome, ?_⟩
    cases hqr : (q ts).result with
    | error failure => rw [bind_of_error hqr, hq]
    | ok r => rw [bind_of_ok hqr, hq, List.cons_append]
  | nil =>
    rw [hq] at hresult
    cases hqr : (q ts).result with
    | error failure =>
      rw [bind_of_error (hresult.trans hqr), bind_of_error hqr, hq]
      exact ⟨hovercome, rfl⟩
    | ok r =>
      obtain ⟨a, mid⟩ := r
      obtain ⟨hovercome', hresult'⟩ := hf a mid
      rw [bind_of_ok (hresult.trans hqr), bind_of_ok hqr, hq, hovercome, hovercome']
      exact ⟨rfl, hresult'⟩

section Recovering

variable {p : Parser Stmt} {ts : List Token}

lemma recovering_of_ok {mode : Mode} {s : Stmt} {rest : List Token}
    (h : (p ts).result = .ok (s, rest)) :
    recovering mode p ts = ⟨(p ts).spans, (p ts).overcome, .ok (some s, rest)⟩ := by
  unfold recovering
  rcases hp : p ts with ⟨spans, overcome, result⟩
  rw [hp] at h
  obtain rfl : result = .ok (s, rest) := h
  rfl

/-- After a broken declaration, reading is resumed where it can be. -/
lemma recovering_of_error {failure : Failure} (h : (p ts).result = .error failure) :
    recovering .recovering p ts =
      ⟨(p ts).spans, (p ts).overcome ++ [failure], .ok (none, resync failure.unread)⟩ := by
  unfold recovering
  rcases hp : p ts with ⟨spans, overcome, result⟩
  rw [hp] at h
  obtain rfl : result = .error failure := h
  rfl

end Recovering

/-- Skipping a broken declaration agrees with stopping at it. -/
lemma Agrees.recovering {p q : Parser Stmt} {ts : List Token} (h : Agrees (p ts) (q ts)) :
    Agrees (recovering .failFast p ts) (recovering .recovering q ts) := by
  obtain ⟨hovercome, hresult⟩ := h
  unfold Grammar.recovering
  rcases hp : p ts with ⟨spans, overcome, result⟩
  rcases hq : q ts with ⟨spans', overcome', result'⟩
  rw [hp] at hovercome hresult
  rw [hq] at hresult
  dsimp only at hovercome hresult
  subst hovercome
  cases overcome' with
  | nil =>
    subst hresult
    cases result with
    | error failure => exact ⟨rfl, rfl⟩
    | ok r => exact ⟨rfl, rfl⟩
  | cons first others =>
    subst hresult
    cases result' with
    | error failure => exact ⟨rfl, rfl⟩
    | ok r => exact ⟨rfl, rfl⟩

/-- Agreement on every text passes from parts to wholes. -/
lemma compositional_agrees :
    Compositional fun {α} (p q : Parser α) => ∀ ts, Agrees (p ts) (q ts) where
  pure _ _ := .refl rfl
  bind hp hf ts := (hp ts).bind hf
  traced _ h ts := ⟨(h ts).1, (h ts).2⟩
  unread _ := .refl rfl
  accept? kinds _ := .refl (overcome_accept? kinds)
  expect kind what _ := .refl (overcome_expect kind what)
  fail _ _ := .refl rfl
  failAtTarget _ _ := .refl rfl

/-- Statements and declarations agree in the two modes. -/
lemma agrees_statement_declaration_declarations (fuel : Nat) :
    (∀ ts, Agrees (statement .failFast fuel ts) (statement .recovering fuel ts)) ∧
      (∀ ts, Agrees (declaration .failFast fuel ts) (declaration .recovering fuel ts)) ∧
        ∀ closing ts, Agrees (declarations .failFast closing fuel ts)
          (declarations .recovering closing fuel ts) :=
  compositional_agrees.statement_declaration_declarations .failFast .recovering
    (fun h ts => (h ts).recovering) fuel

lemma program_agrees (ts : List Token) :
    Agrees (program .failFast ts) (program .recovering ts) :=
  (agrees_statement_declaration_declarations _).2.2 [] ts

/-! ### Reading goes forward -/

/-- The tokens that had not been read when the attempt ended, either way. -/
def left {α : Type} (r : Reply α) : List Token :=
  match r.result with
  | .ok (_, rest) => rest
  | .error failure => failure.unread

lemma left_of_ok {α : Type} {r : Reply α} {a : α} {rest : List Token}
    (h : r.result = .ok (a, rest)) : left r = rest := by
  rw [left, h]

lemma left_of_error {α : Type} {r : Reply α} {failure : Failure}
    (h : r.result = .error failure) : left r = failure.unread := by
  rw [left, h]

lemma left_bind_of_ok {α β : Type} {p : Parser α} {g : α → Parser β} {ts mid : List Token} {a : α}
    (h : (p ts).result = .ok (a, mid)) : left ((p >>= g) ts) = left (g a mid) := by
  rw [left, left, result_bind_of_ok h]

/-- The parser only takes tokens from the front of the text. -/
def Narrows {α : Type} (p : Parser α) : Prop :=
  ∀ ts, left (p ts) <:+ ts

lemma narrows_bind {α β : Type} {p : Parser α} {f : α → Parser β} (hp : Narrows p)
    (hf : ∀ a, Narrows (f a)) : Narrows (p >>= f) := by
  intro ts
  have hpts := hp ts
  cases h : (p ts).result with
  | error failure =>
    rw [left_of_error h] at hpts
    rw [left_of_error (result_bind_of_error h)]
    exact hpts
  | ok r =>
    obtain ⟨a, mid⟩ := r
    rw [left_of_ok h] at hpts
    rw [left_bind_of_ok h]
    exact (hf a mid).trans hpts

lemma narrows_accept? (kinds : List Kind) : Narrows (accept? kinds) := by
  intro ts
  by_cases h : Starts kinds ts
  · cases ts with
    | nil => exact absurd h not_starts_nil
    | cons t ts =>
      rw [left_of_ok (result_accept?_cons (starts_cons.1 h))]
      exact List.suffix_cons _ _
  · exact (left_of_ok (result_accept?_of_not_starts h)).symm ▸ List.suffix_refl ts

lemma narrows_expect (kind : Kind) (what : Expected) : Narrows (expect kind what) := by
  intro ts
  by_cases h : Starts [kind] ts
  · obtain ⟨t, mid, rfl, hkind⟩ := h.exists_cons
    rw [left_of_ok (result_expect_cons (List.mem_singleton.1 hkind))]
    exact List.suffix_cons _ _
  · exact (left_of_error (result_expect_of_not_starts h)).symm ▸ List.suffix_refl ts

/-- Going forward passes from parts to wholes. -/
lemma compositional_narrows : Compositional fun {α} (p _ : Parser α) => Narrows p where
  pure _ _ := List.suffix_refl _
  bind := narrows_bind
  traced _ h ts := h ts
  unread _ := List.suffix_refl _
  accept? := narrows_accept?
  expect := narrows_expect
  fail _ _ := List.suffix_refl _
  failAtTarget _ _ := List.suffix_refl _

section Resync

variable {t next : Token} {ts : List Token}

lemma resync_of_semicolon (h : t.kind = .sign .semicolon) : resync (t :: ts) = ts := by
  rw [resync.eq_def]
  simp only [h, if_true]

lemma resync_singleton (t : Token) : resync [t] = [] := by
  simp only [resync]
  split <;> rfl

/-- A token that starts a statement stops the skipping. -/
lemma resync_of_starter (h : t.kind ≠ .sign .semicolon) (hnext : next.kind ∈ starters) :
    resync (t :: next :: ts) = next :: ts := by
  rw [resync.eq_def]
  simp only [h, hnext, if_false, if_true]

/-- Any other token is skipped in its turn. -/
lemma resync_of_not_starter (h : t.kind ≠ .sign .semicolon) (hnext : next.kind ∉ starters) :
    resync (t :: next :: ts) = resync (next :: ts) := by
  rw [resync.eq_def]
  simp only [h, hnext, if_false]

end Resync

/-- Behind the token that is skipped in any case, no start of a statement is skipped. -/
lemma exists_skipped (t : Token) (ts : List Token) :
    ∃ skipped, ts = skipped ++ resync (t :: ts) ∧ ∀ u ∈ skipped, u.kind ∉ starters := by
  have hnone : ∀ u ∈ ([] : List Token), u.kind ∉ starters := List.forall_mem_nil _
  induction ts generalizing t with
  | nil => exact ⟨[], (resync_singleton t).symm, hnone⟩
  | cons next ts ih =>
    by_cases hsemicolon : t.kind = .sign .semicolon
    · exact ⟨[], (resync_of_semicolon hsemicolon).symm, hnone⟩
    · by_cases hstarter : next.kind ∈ starters
      · exact ⟨[], (resync_of_starter hsemicolon hstarter).symm, hnone⟩
      · obtain ⟨skipped, hskipped, hkinds⟩ := ih next
        rw [resync_of_not_starter hsemicolon hstarter]
        refine ⟨next :: skipped, ?_, List.forall_mem_cons.2 ⟨hstarter, hkinds⟩⟩
        rw [List.cons_append, ← hskipped]

/-- Where a token comes first, at least that one is skipped. -/
lemma resync_cons_suffix (t : Token) (ts : List Token) : resync (t :: ts) <:+ ts := by
  obtain ⟨skipped, hskipped, -⟩ := exists_skipped t ts
  exact ⟨skipped, hskipped.symm⟩

/-- Reading is resumed after the tokens that are skipped. -/
lemma resync_suffix (ts : List Token) : resync ts <:+ ts := by
  cases ts with
  | nil => exact List.suffix_refl _
  | cons t ts => exact (resync_cons_suffix t ts).trans (List.suffix_cons t ts)

lemma narrows_recovering (mode : Mode) {p : Parser Stmt} (h : Narrows p) :
    Narrows (recovering mode p) := by
  intro ts
  have hpts := h ts
  unfold recovering
  rcases hp : p ts with ⟨spans, overcome, failure | ⟨s, rest⟩⟩
  · rw [hp] at hpts
    cases mode with
    | failFast => exact hpts
    | recovering => exact (resync_suffix failure.unread).trans hpts
  · rw [hp] at hpts
    exact hpts

/-- Statements and declarations go forward in either mode. -/
lemma narrows_statement_declaration_declarations (mode : Mode) (fuel : Nat) :
    Narrows (statement mode fuel) ∧ Narrows (declaration mode fuel) ∧
      ∀ closing, Narrows (declarations mode closing fuel) :=
  compositional_narrows.statement_declaration_declarations mode mode
    (fun h => narrows_recovering mode h) fuel

/-! ### Every declaration takes a token -/

/-- The parser takes at least one token when it succeeds. -/
def Advances {α : Type} (p : Parser α) : Prop :=
  ∀ ⦃t ts a rest⦄, (p (t :: ts)).result = .ok (a, rest) → rest <:+ ts

/-- Asking for a token advances when it does so without the token. -/
lemma advances_accept?_bind {α : Type} {kinds : List Kind} {f : Option Token → Parser α}
    (hsome : ∀ t, Narrows (f (some t))) (hnone : Advances (f none)) :
    Advances (accept? kinds >>= f) := by
  intro t ts a rest h
  rw [result_accept?_bind_eq_ok] at h
  rcases h with ⟨-, h⟩ | ⟨u, mid, -, hmid, h⟩
  · exact hnone h
  · obtain ⟨rfl, rfl⟩ := List.cons.inj hmid
    have hnarrow := hsome t ts
    rw [left_of_ok h] at hnarrow
    exact hnarrow

/-- An expression with a semicolon has a first token. -/
lemma advances_expressionStatement (fuel : Nat) : Advances (expressionStatement fuel) := by
  intro t ts a rest h
  obtain ⟨D, -, htokens, -⟩ := expressionStatement_sound fuel h
  cases D with
  | exprStmt E semicolon =>
    obtain ⟨u, us, hE⟩ := List.exists_cons_of_ne_nil E.tokens_ne_nil
    rw [StmtTree.tokens, hE, List.cons_append, List.cons_append] at htokens
    rw [(List.cons.inj htokens).2]
    exact List.suffix_append _ _

lemma advances_statement (mode : Mode) (fuel : Nat) : Advances (statement mode fuel) := by
  cases fuel with
  | zero =>
    intro t ts a rest h
    cases h
  | succ fuel =>
    obtain ⟨hstatement, -, hdeclarations⟩ :=
      narrows_statement_declaration_declarations mode fuel
    intro t ts a rest h
    rw [statement, result_traced] at h
    refine advances_accept?_bind (fun keyword => ?_) (advances_accept?_bind (fun keyword => ?_)
      (advances_accept?_bind (fun brace => ?_) (advances_expressionStatement fuel))) h
    · exact compositional_narrows.ifStatement (q := statement mode fuel) hstatement fuel keyword
    · exact compositional_narrows.printStatement fuel keyword
    · exact compositional_narrows.blockStatement (q := declarations mode [.sign .rightBrace] fuel)
        (hdeclarations _) brace

/-- A broken declaration that is skipped takes a token as well. -/
lemma advances_recovering (mode : Mode) {p : Parser Stmt} (hadvances : Advances p)
    (hnarrows : Narrows p) : Advances (recovering mode p) := by
  intro t ts s rest h
  have hleft := hnarrows (t :: ts)
  unfold recovering at h
  rcases hreply : p (t :: ts) with ⟨spans, overcome, failure | ⟨s', rest'⟩⟩
  · rw [hreply] at h hleft
    have hunread : failure.unread <:+ t :: ts := hleft
    cases mode with
    | failFast => cases h
    | recovering =>
      cases h
      rcases List.suffix_cons_iff.1 hunread with heq | hshorter
      · rw [heq]
        exact resync_cons_suffix t ts
      · exact (resync_suffix _).trans hshorter
  · rw [hreply] at h
    cases h
    exact hadvances (t := t) (a := s') (by rw [hreply])

lemma advances_declaration (mode : Mode) (fuel : Nat) : Advances (declaration mode fuel) := by
  cases fuel with
  | zero =>
    intro t ts a rest h
    cases h
  | succ fuel =>
    obtain ⟨hstatement, -, -⟩ := narrows_statement_declaration_declarations mode fuel
    intro t ts a rest h
    rw [declaration, result_traced] at h
    refine advances_recovering mode (advances_accept?_bind (fun keyword => ?_) ?_)
      (narrows_bind (narrows_accept? _) fun keyword? => ?_) h
    · exact compositional_narrows.varDeclaration fuel keyword
    · exact advances_statement mode fuel
    · cases keyword? with
      | some keyword => exact compositional_narrows.varDeclaration fuel keyword
      | none => exact hstatement

/-- What may be skipped always comes to an end. -/
lemma exists_result_recovering (p : Parser Stmt) (ts : List Token) :
    ∃ s rest, (recovering .recovering p ts).result = .ok (s, rest) := by
  unfold recovering
  rcases p ts with ⟨spans, overcome, failure | ⟨s, rest⟩⟩
  · exact ⟨none, _, rfl⟩
  · exact ⟨some s, rest, rfl⟩

/-- A declaration that is not skipped fails only if what it tries fails. -/
lemma result_eq_error_of_recovering {mode : Mode} {p : Parser Stmt} {ts : List Token} {f : Failure}
    (h : (recovering mode p ts).result = .error f) : (p ts).result = .error f := by
  cases mode with
  | failFast => exact result_recovering_failFast_eq_error.1 h
  | recovering =>
    obtain ⟨s, rest, hok⟩ := exists_result_recovering p ts
    rw [hok] at h
    cases h

/-- A declaration that may be skipped always comes to an end, and behind its first token. -/
lemma exists_result_declaration_recovering (fuel : Nat) (t : Token) (ts : List Token) :
    ∃ s rest, (declaration .recovering (fuel + 1) (t :: ts)).result = .ok (s, rest) ∧
      rest <:+ ts := by
  have hok : ∃ s rest, (declaration .recovering (fuel + 1) (t :: ts)).result = .ok (s, rest) := by
    rw [declaration, result_traced]
    exact exists_result_recovering _ _
  obtain ⟨s, rest, hresult⟩ := hok
  exact ⟨s, rest, hresult, advances_declaration .recovering (fuel + 1) hresult⟩

/-- Reading that goes on after mistakes comes to the end of the text. -/
lemma exists_result_declarations_recovering {fuel : Nat} {ts : List Token}
    (hfuel : ts.length < fuel) :
    ∃ p, (declarations .recovering [] fuel ts).result = .ok (p, []) := by
  induction fuel generalizing ts with
  | zero => omega
  | succ fuel ih =>
    cases ts with
    | nil => exact ⟨[], rfl⟩
    | cons t ts =>
      cases fuel with
      | zero => simp at hfuel
      | succ fuel =>
        obtain ⟨s, mid, hfirst, hmid⟩ := exists_result_declaration_recovering fuel t ts
        have hlength : mid.length < fuel + 1 := by
          have := hmid.length_le
          simp only [List.length_cons] at hfuel
          omega
        obtain ⟨others, hothers⟩ := ih hlength
        refine ⟨s.toList ++ others, ?_⟩
        rw [declarations, result_bind_of_ok result_unread]
        dsimp only
        rw [if_neg List.not_mem_nil, result_bind_of_ok hfirst, result_bind_of_ok hothers]
        rfl

/-! ### Whole programs -/

lemma exists_result_program_recovering (ts : List Token) :
    ∃ p, (program .recovering ts).result = .ok (p, []) := by
  have hfuel : ts.length < fuelFor ts.length := by
    unfold fuelFor
    omega
  exact exists_result_declarations_recovering hfuel

/-- Reading that goes on after mistakes finds a program exactly when reading that stops at them
does, and the same one.  Otherwise it lists mistakes, and the first of them is the one that stops
the other reading. -/
theorem recovering_agrees_with_failFast (tokens : List Token) :
    (∀ p, (readTokens .recovering tokens).result = .ok p ↔
        (readTokens .failFast tokens).result = .ok p) ∧
      ∀ r, (readTokens .failFast tokens).result = .error r →
        ∃ e others, r = .first e ∧
          (readTokens .recovering tokens).result = .error (.every (e :: others)) := by
  obtain ⟨q, hlenient⟩ := exists_result_program_recovering (body tokens)
  obtain ⟨hovercome, hstrict⟩ := program_agrees (body tokens)
  unfold readTokens
  dsimp only
  rw [hlenient, hovercome]
  cases hmistakes : (program .recovering (body tokens)).overcome with
  | nil =>
    rw [hmistakes, hlenient] at hstrict
    rw [hstrict]
    exact ⟨fun p => Iff.rfl, by simp⟩
  | cons first others =>
    rw [hmistakes] at hstrict
    rw [hstrict]
    refine ⟨fun p => ⟨nofun, nofun⟩, fun r hr => ?_⟩
    cases hr
    exact ⟨_, _, rfl, rfl⟩

end LoxScript.Grammar
