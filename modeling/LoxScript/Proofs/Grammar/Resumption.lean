import LoxScript.Proofs.Grammar.Lookahead

/-!
# Where reading is resumed after a mistake

When a declaration is given up, the token at which it stopped is skipped in any case.  After that
only tokens are skipped that start no statement, and none behind a semicolon.  So reading is
resumed before the next statement, unless the token at which the declaration stopped was itself the
first one of that statement: then the start of the statement is lost, and with it whatever is wrong
with the rest.

All the declarations that are given up while a program is read lie in order in its text: what is
blamed for one of them is not before the place where reading was resumed after the one before.
-/

namespace LoxScript.Grammar

open LoxScript.Parser

/-! ### What a failure leaves -/

/-- What has not been read when the parser fails is a part of what it blames. -/
def Retains {α : Type} (p : Parser α) : Prop :=
  ∀ ⦃ts : List Token⦄ ⦃f : Failure⦄, (p ts).result = .error f → f.unread <:+ f.blamed

lemma retains_bind {α β : Type} {p : Parser α} {g : α → Parser β} (hp : Retains p)
    (hg : ∀ a, Retains (g a)) : Retains (p >>= g) := by
  intro ts f h
  rcases result_bind_eq_error.1 h with herror | ⟨a, mid, -, herror⟩
  · exact hp herror
  · exact hg a herror

lemma retains_accept? (kinds : List Kind) : Retains (accept? kinds) :=
  fun _ _ h => absurd h result_accept?_ne_error

lemma retains_expect (kind : Kind) (what : Expected) : Retains (expect kind what) := by
  intro ts f h
  rw [eq_of_result_expect_eq_error h]

lemma sequential_retains : Sequential fun {α} (p _ : Parser α) => Retains p where
  pure _ _ _ h := by cases h
  bind := retains_bind
  traced _ h _ _ hf := h hf
  accept? := retains_accept?
  expect := retains_expect
  fail _ ts _ h := by
    cases h
    exact List.suffix_refl ts

/-- An assignment to a wrong target is given up behind its sign. -/
lemma retains_afterTarget {fuel : Nat} (hwithin : Within (assignment fuel))
    (h : Retains (assignment fuel)) (target : Expr) : Retains (afterTarget fuel target) := by
  intro ts f hf
  by_cases hstarts : Starts [.sign .equal] ts
  · obtain ⟨equal, mid, rfl, hkind⟩ := hstarts.exists_cons
    rw [result_afterTarget_cons hkind] at hf
    rcases result_bind_eq_error.1 hf with herror | ⟨value, mid', hvalue, hlast⟩
    · exact h herror
    · have hsuffix := (hwithin mid).1 value mid' hvalue
      rcases assignTo_cases target with ⟨token, hassign⟩ | hwrong
      · rw [hassign] at hlast
        cases hlast
      · rw [hwrong] at hlast
        cases hlast
        exact hsuffix.trans (List.suffix_cons equal mid)
  · rw [result_afterTarget_of_not_starts hstarts] at hf
    cases hf

lemma within_assignment (fuel : Nat) : Within (assignment fuel) := by
  have htracks : Tracks False (Token.atEnd 1) [] [] (assignment fuel) (assignment fuel) :=
    (tracks_expression_assignment_unary (ahead_nil _) fuel).2.1
  exact htracks.within

lemma within_expression (fuel : Nat) : Within (expression fuel) := by
  have htracks : Tracks False (Token.atEnd 1) [] [] (expression fuel) (expression fuel) :=
    tracks_expression (ahead_nil _) fuel
  exact htracks.within

lemma retains_assignment_succ {fuel : Nat} (hunary : Retains (unary fuel))
    (hassignment : Retains (assignment fuel)) : Retains (assignment (fuel + 1)) := by
  have hboth : Retains (equality (unary fuel) fuel >>= afterTarget fuel) :=
    retains_bind (sequential_retains.phrasal.equality hunary fuel)
      (retains_afterTarget (within_assignment fuel) hassignment)
  intro ts f hf
  rw [result_assignment] at hf
  exact hboth hf

lemma retains_expression (fuel : Nat) : Retains (expression fuel) :=
  (sequential_retains.phrasal.expression_assignment_unary (fun _ => retains_assignment_succ) fuel).1

/-- Expressions overcome no failures. -/
lemma overcome_expression (fuel : Nat) (ts : List Token) : (expression fuel ts).overcome = [] :=
  (compositional_agrees.expression fuel ts).overcome_eq

/-! ### Failures in order -/

/-- The failures lie in the text one after the other, and reading was resumed after each of them.
What is left at the end comes after the last one. -/
def InOrder : List Token → List Failure → List Token → Prop
  | ts, [], rest => rest <:+ ts
  | ts, f :: fs, rest => f.blamed <:+ ts ∧ f.unread <:+ f.blamed ∧ InOrder (resync f.unread) fs rest

section InOrder

variable {ts mid rest : List Token} {fs gs : List Failure}

lemma InOrder.suffix (h : InOrder ts fs rest) : rest <:+ ts := by
  induction fs generalizing ts with
  | nil => exact h
  | cons f fs ih =>
    obtain ⟨hblamed, hunread, hothers⟩ := h
    exact (ih hothers).trans ((resync_suffix _).trans (hunread.trans hblamed))

/-- A longer text has the same failures at its end. -/
lemma InOrder.mono (h : InOrder mid fs rest) (hmid : mid <:+ ts) : InOrder ts fs rest := by
  cases fs with
  | nil => exact List.IsSuffix.trans h hmid
  | cons f fs => exact ⟨h.1.trans hmid, h.2⟩

lemma InOrder.append (h : InOrder ts fs mid) (h' : InOrder mid gs rest) :
    InOrder ts (fs ++ gs) rest := by
  induction fs generalizing ts with
  | nil => exact h'.mono h
  | cons f fs ih => exact ⟨h.1, h.2.1, ih h.2.2⟩

end InOrder

/-- How far a reply came: to what is left, or to what is blamed. -/
def reached {α : Type} (r : Reply α) : List Token :=
  match r.result with
  | .ok (_, rest) => rest
  | .error failure => failure.blamed

section Reached

variable {α : Type} {r : Reply α}

lemma reached_of_ok {a : α} {rest : List Token} (h : r.result = .ok (a, rest)) :
    reached r = rest := by
  rw [reached, h]

lemma reached_of_error {failure : Failure} (h : r.result = .error failure) :
    reached r = failure.blamed := by
  rw [reached, h]

end Reached

/-- The parser overcomes failures in the order of the text, and fails after them. -/
structure Orderly {α : Type} (p : Parser α) : Prop where
  inOrder : ∀ ts, InOrder ts (p ts).overcome (reached (p ts))
  retains : Retains p

section Orderly

variable {α β : Type} {p : Parser α} {g : α → Parser β}

/-- A parser that overcomes no failures has none out of order. -/
lemma Orderly.of_within (hovercome : ∀ ts, (p ts).overcome = []) (hwithin : Within p)
    (hretains : Retains p) : Orderly p := by
  refine ⟨fun ts => ?_, hretains⟩
  rw [hovercome]
  cases h : (p ts).result with
  | error f =>
    rw [reached_of_error h]
    exact ((hwithin ts).2 f h).1
  | ok r =>
    obtain ⟨a, rest⟩ := r
    rw [reached_of_ok h]
    exact (hwithin ts).1 a rest h

lemma Orderly.bind (hp : Orderly p) (hg : ∀ a, Orderly (g a)) : Orderly (p >>= g) := by
  refine ⟨fun ts => ?_, retains_bind hp.retains fun a => (hg a).retains⟩
  have hfirst := hp.inOrder ts
  cases h : (p ts).result with
  | error f =>
    rw [reached_of_error h] at hfirst
    rw [bind_of_error h]
    exact hfirst
  | ok r =>
    obtain ⟨a, mid⟩ := r
    rw [reached_of_ok h] at hfirst
    rw [bind_of_ok h]
    exact hfirst.append ((hg a).inOrder mid)

lemma orderly_unread : Orderly unread :=
  ⟨fun ts => List.suffix_refl ts, fun _ _ h => by cases h⟩

lemma sequential_orderly : Sequential fun {α} (p _ : Parser α) => Orderly p where
  pure a := .of_within (fun _ => rfl) (within_pure a) (sequential_retains.pure a)
  bind := Orderly.bind
  traced _ h := ⟨h.inOrder, h.retains⟩
  accept? kinds :=
    .of_within (fun _ => overcome_accept? kinds) (within_accept? kinds) (retains_accept? kinds)
  expect kind what :=
    .of_within (fun _ => overcome_expect kind what) (within_expect kind what)
      (retains_expect kind what)
  fail what := by
    refine .of_within (fun _ => rfl) (fun ts => ⟨nofun, ?_⟩) (sequential_retains.fail what)
    rintro f ⟨⟩
    exact ⟨List.suffix_refl ts, List.suffix_refl ts⟩

/-- A broken declaration that is skipped comes after those skipped inside it. -/
lemma Orderly.recovering {p : Parser Stmt} (h : Orderly p) :
    Orderly (recovering .recovering p) := by
  refine ⟨fun ts => ?_, fun ts f hf => h.retains (result_eq_error_of_recovering hf)⟩
  have horder := h.inOrder ts
  cases hp : (p ts).result with
  | error f =>
    have hunread : f.unread <:+ f.blamed := h.retains hp
    rw [reached_of_error hp] at horder
    rw [recovering_of_error hp]
    exact horder.append ⟨List.suffix_refl _, hunread, List.suffix_refl _⟩
  | ok r =>
    obtain ⟨s, rest⟩ := r
    rw [reached_of_ok hp] at horder
    rw [recovering_of_ok hp]
    exact horder

lemma orderly_expression (fuel : Nat) : Orderly (expression fuel) :=
  .of_within (overcome_expression fuel) (within_expression fuel) (retains_expression fuel)

/-- All rules are orderly when reading goes on after mistakes. -/
lemma orderly_statement_declaration_declarations (fuel : Nat) :
    Orderly (statement .recovering fuel) ∧ Orderly (declaration .recovering fuel) ∧
      ∀ closing, Orderly (declarations .recovering closing fuel) :=
  sequential_orderly.statement_declaration_declarations_of_unread .recovering .recovering
    orderly_unread orderly_expression
    (fun _ h => ⟨h.recovering.inOrder, h.recovering.retains⟩) fuel

/-- The failures that are overcome in a program lie in it in order. -/
lemma inOrder_program (ts : List Token) : InOrder ts (program .recovering ts).overcome [] := by
  have horder : InOrder ts (program .recovering ts).overcome (reached (program .recovering ts)) :=
    ((orderly_statement_declaration_declarations (fuelFor ts.length)).2.2 []).inOrder ts
  obtain ⟨p, hp⟩ := exists_result_program_recovering ts
  rwa [reached_of_ok hp] at horder

end Orderly

/-! ### Declarations that are given up -/

/-- What a declaration tries is blamed on the next token in either mode. -/
lemma blamesNext_attempt (mode : Mode) (fuel : Nat) : BlamesNext (attempt mode fuel) := by
  obtain ⟨hstatement, -, -⟩ := compositional_blamesNext.statement_declaration_declarations
    mode mode (fun h _ _ hf => h (result_eq_error_of_recovering hf)) fuel
  exact compositional_blamesNext.sequential.phrasal.attempt mode mode
    (compositional_blamesNext.expression fuel) hstatement

lemma orderly_attempt (fuel : Nat) : Orderly (attempt .recovering fuel) := by
  obtain ⟨hstatement, -, -⟩ := orderly_statement_declaration_declarations fuel
  exact sequential_orderly.phrasal.attempt .recovering .recovering (orderly_expression fuel)
    hstatement

/-- A declaration that is begun somewhere in a text and cannot be read. -/
structure Mishap (text : List Token) where
  /-- The bound on what the declaration reads. -/
  fuel : Nat
  /-- What is left of the text where the declaration begins. -/
  begun : List Token
  begun_suffix : begun <:+ text
  failure : Failure
  failed : (attempt .recovering fuel begun).result = .error failure

namespace Mishap

variable {text : List Token}

/-- The index of the first token of the declaration. -/
def first (m : Mishap text) : Nat :=
  text.length - m.begun.length

/-- The index of the token to blame. -/
def place (m : Mishap text) : Nat :=
  text.length - m.failure.blamed.length

/-- The index at which reading is resumed. -/
def resumed (m : Mishap text) : Nat :=
  text.length - (left (declaration .recovering (m.fuel + 1) m.begun)).length

/-- The declaration in a longer text. -/
def widen {mid : List Token} (m : Mishap mid) (h : mid <:+ text) : Mishap text where
  fuel := m.fuel
  begun := m.begun
  begun_suffix := m.begun_suffix.trans h
  failure := m.failure
  failed := m.failed

lemma blamed_suffix (m : Mishap text) : m.failure.blamed <:+ m.begun := by
  have hsuffix := ((orderly_attempt m.fuel).inOrder m.begun).suffix
  rwa [reached_of_error m.failed] at hsuffix

/-- A token that was refused has not been read. -/
lemma blamed_eq_unread (m : Mishap text) {what : Expected}
    (hcause : m.failure.cause = .expected what) : m.failure.blamed = m.failure.unread := by
  rcases blamesNext_attempt .recovering m.fuel m.failed with htarget | hblamed
  · rw [hcause] at htarget
    cases htarget
  · exact hblamed

lemma left_declaration (m : Mishap text) :
    left (declaration .recovering (m.fuel + 1) m.begun) = resync m.failure.unread := by
  have hskipped := recovering_of_error m.failed
  rw [declaration_succ]
  exact left_of_ok (by rw [result_traced, hskipped])

/-- The text falls into what comes before the refused token, that token, what is skipped behind it,
and what is read after that. -/
lemma exists_split (m : Mishap text) {what : Expected} (hcause : m.failure.cause = .expected what)
    {t : Token} {ts : List Token} (hblamed : m.failure.blamed = t :: ts) :
    ∃ before skipped rest, text = before ++ t :: (skipped ++ rest) ∧ before.length = m.place ∧
      (before ++ t :: skipped).length = m.resumed ∧ ∀ u ∈ skipped, u.kind ∉ starters := by
  obtain ⟨before, hbefore⟩ := m.blamed_suffix.trans m.begun_suffix
  obtain ⟨skipped, hskipped, hkinds⟩ := exists_skipped t ts
  have hunread : m.failure.unread = t :: ts := (m.blamed_eq_unread hcause).symm.trans hblamed
  have hleft := m.left_declaration
  rw [hunread] at hleft
  rw [hblamed] at hbefore
  have htext : text = before ++ t :: (skipped ++ resync (t :: ts)) := by
    rw [← hskipped, hbefore]
  have hlength := congrArg List.length htext
  have hts := congrArg List.length hskipped
  simp only [List.length_append, List.length_cons] at hlength hts
  refine ⟨before, skipped, resync (t :: ts), htext, ?_, ?_, hkinds⟩
  · rw [place, hblamed, List.length_cons]
    omega
  · rw [resumed, hleft, List.length_append, List.length_cons]
    omega

lemma first_le_place (m : Mishap text) : m.first ≤ m.place := by
  have hblamed := m.blamed_suffix.length_le
  rw [first, place]
  omega

/-- Where the end of the text is to blame, nothing is left to be skipped. -/
lemma resumed_of_blamed_eq_nil (m : Mishap text) {what : Expected}
    (hcause : m.failure.cause = .expected what) (hblamed : m.failure.blamed = []) :
    m.place = text.length ∧ m.resumed = text.length := by
  have hunread : m.failure.unread = [] := (m.blamed_eq_unread hcause).symm.trans hblamed
  have hleft := m.left_declaration
  rw [hunread] at hleft
  constructor
  · rw [place, hblamed, List.length_nil, Nat.sub_zero]
  · rw [resumed, hleft, resync, List.length_nil, Nat.sub_zero]

lemma place_le_resumed (m : Mishap text) {what : Expected}
    (hcause : m.failure.cause = .expected what) : m.place ≤ m.resumed := by
  cases hblamed : m.failure.blamed with
  | nil =>
    obtain ⟨hplace, hresumed⟩ := m.resumed_of_blamed_eq_nil hcause hblamed
    rw [hplace, hresumed]
  | cons t ts =>
    obtain ⟨before, skipped, rest, -, hplace, hresumed, -⟩ := m.exists_split hcause hblamed
    rw [← hplace, ← hresumed, List.length_append]
    exact Nat.le_add_right _ _

/-- Every token but the last is skipped if it is refused. -/
lemma place_lt_resumed (m : Mishap text) {what : Expected}
    (hcause : m.failure.cause = .expected what) {t : Token} (ht : text[m.place]? = some t) :
    m.place < m.resumed := by
  cases hblamed : m.failure.blamed with
  | nil =>
    obtain ⟨hplace, -⟩ := m.resumed_of_blamed_eq_nil hcause hblamed
    rw [hplace, List.getElem?_eq_none (Nat.le_refl _)] at ht
    cases ht
  | cons t ts =>
    obtain ⟨before, skipped, rest, -, hplace, hresumed, -⟩ := m.exists_split hcause hblamed
    rw [← hplace, ← hresumed, List.length_append, List.length_cons]
    omega

/-- No start of a statement is skipped behind the token that was refused. -/
lemma kind_notMem_starters (m : Mishap text) {what : Expected}
    (hcause : m.failure.cause = .expected what) {i : Nat} {u : Token} (hplace : m.place < i)
    (hresumed : i < m.resumed) (hu : text[i]? = some u) : u.kind ∉ starters := by
  cases hblamed : m.failure.blamed with
  | nil =>
    obtain ⟨hend, hend'⟩ := m.resumed_of_blamed_eq_nil hcause hblamed
    omega
  | cons t ts =>
    obtain ⟨before, skipped, rest, htext, hlength, hlength', hkinds⟩ :=
      m.exists_split hcause hblamed
    rw [List.length_append, List.length_cons] at hlength'
    obtain ⟨k, rfl⟩ : ∃ k, i = before.length + (k + 1) := ⟨i - before.length - 1, by omega⟩
    have hk : k < skipped.length := by omega
    rw [htext, List.getElem?_append_right (Nat.le_add_right _ _), Nat.add_sub_cancel_left,
      List.getElem?_cons_succ, List.getElem?_append_left hk] at hu
    exact hkinds u (List.mem_of_getElem? hu)

end Mishap

/-- The parser goes forward, and the failures it overcomes are of declarations in the text. -/
structure Accounts {α : Type} (p : Parser α) : Prop where
  narrows : Narrows p
  exists_mishap : ∀ ts, ∀ f ∈ (p ts).overcome, ∃ m : Mishap ts, m.failure = f

section Accounts

variable {α β : Type} {p : Parser α} {g : α → Parser β}

lemma Accounts.of_overcome_eq_nil (hnarrows : Narrows p) (h : ∀ ts, (p ts).overcome = []) :
    Accounts p := by
  refine ⟨hnarrows, fun ts f hf => ?_⟩
  rw [h] at hf
  exact absurd hf List.not_mem_nil

lemma Accounts.bind (hp : Accounts p) (hg : ∀ a, Accounts (g a)) : Accounts (p >>= g) := by
  refine ⟨narrows_bind hp.narrows fun a => (hg a).narrows, fun ts f hf => ?_⟩
  cases h : (p ts).result with
  | error failure =>
    rw [bind_of_error h] at hf
    exact hp.exists_mishap ts f hf
  | ok r =>
    obtain ⟨a, mid⟩ := r
    rw [bind_of_ok h] at hf
    rcases List.mem_append.1 hf with hfirst | hsecond
    · exact hp.exists_mishap ts f hfirst
    · have hmid := hp.narrows ts
      rw [left_of_ok h] at hmid
      obtain ⟨m, rfl⟩ := (hg a).exists_mishap mid f hsecond
      exact ⟨m.widen hmid, rfl⟩

lemma sequential_accounts : Sequential fun {α} (p _ : Parser α) => Accounts p where
  pure a := .of_overcome_eq_nil (compositional_narrows.pure a) fun _ => rfl
  bind := Accounts.bind
  traced _ h := ⟨h.narrows, h.exists_mishap⟩
  accept? kinds := .of_overcome_eq_nil (narrows_accept? kinds) fun _ => overcome_accept? kinds
  expect kind what :=
    .of_overcome_eq_nil (narrows_expect kind what) fun _ => overcome_expect kind what
  fail what := .of_overcome_eq_nil (compositional_narrows.fail what) fun _ => rfl

lemma accounts_unread : Accounts unread :=
  .of_overcome_eq_nil compositional_narrows.unread fun _ => rfl

lemma accounts_expression (fuel : Nat) : Accounts (expression fuel) :=
  .of_overcome_eq_nil (compositional_narrows.expression fuel) (overcome_expression fuel)

/-- What a declaration overcomes is its own failure, or comes from the declarations inside it. -/
lemma Accounts.declaration_succ {fuel : Nat} (h : Accounts (attempt .recovering fuel)) :
    Accounts (declaration .recovering (fuel + 1)) := by
  rw [Grammar.declaration_succ]
  refine ⟨narrows_recovering .recovering h.narrows, fun ts f hf => ?_⟩
  cases hattempt : (attempt .recovering fuel ts).result with
  | ok r =>
    have hread : f ∈ (recovering .recovering (attempt .recovering fuel) ts).overcome := hf
    rw [recovering_of_ok hattempt] at hread
    exact h.exists_mishap ts f hread
  | error failure =>
    have hread : f ∈ (recovering .recovering (attempt .recovering fuel) ts).overcome := hf
    rw [recovering_of_error hattempt] at hread
    rcases List.mem_append.1 hread with hinside | hlast
    · exact h.exists_mishap ts f hinside
    · obtain rfl : f = failure := List.mem_singleton.1 hlast
      exact ⟨⟨fuel, ts, List.suffix_refl ts, f, hattempt⟩, rfl⟩

/-- Every failure that is overcome in a program is that of a declaration in its text. -/
lemma exists_mishap_program {ts : List Token} {f : Failure}
    (hf : f ∈ (program .recovering ts).overcome) : ∃ m : Mishap ts, m.failure = f := by
  obtain ⟨-, -, hdeclarations⟩ :=
    sequential_accounts.statement_declaration_declarations_of_unread .recovering .recovering
      accounts_unread accounts_expression (fun _ => Accounts.declaration_succ) (fuelFor ts.length)
  exact (hdeclarations []).exists_mishap ts f hf

end Accounts

/-- Every mistake that is listed is that of a declaration which was given up.  Where a declaration
is given up because something had to come next, no start of a statement is skipped behind the token
that came instead.  That token is skipped in any case, so the declaration costs another one its
start exactly when it is not itself the first token and starts a statement. -/
theorem resumption_loses_only_the_refused_start (tokens : List Token) :
    (∀ errors, (readTokens .recovering tokens).result = .error (.every errors) →
        ∀ e ∈ errors, ∃ m : Mishap (body tokens),
          e = .ofFailure (body tokens).length (stop tokens) m.failure) ∧
      ∀ (m : Mishap (body tokens)) (what : Expected), m.failure.cause = .expected what →
        m.first ≤ m.place ∧ m.place ≤ m.resumed ∧
          (∀ i t, m.place < i → i < m.resumed → (body tokens)[i]? = some t →
            t.kind ∉ starters) ∧
          ((∀ i t, m.place ≤ i → i < m.resumed → i ≠ m.first → (body tokens)[i]? = some t →
              t.kind ∉ starters) ↔
            m.place = m.first ∨ ∀ t, (body tokens)[m.place]? = some t → t.kind ∉ starters) := by
  refine ⟨fun errors herrors e he => ?_, fun m what hcause => ?_⟩
  · obtain ⟨-, hevery⟩ := result_readTokens_recovering_eq_error.1 herrors
    rw [Rejection.every.inj hevery] at he
    obtain ⟨f, hf, rfl⟩ := List.mem_map.1 he
    obtain ⟨m, rfl⟩ := exists_mishap_program hf
    exact ⟨m, rfl⟩
  · refine ⟨m.first_le_place, m.place_le_resumed hcause,
      fun i t => m.kind_notMem_starters hcause, ?_, ?_⟩
    · intro h
      by_cases hfirst : m.place = m.first
      · exact .inl hfirst
      · refine .inr fun t ht => ?_
        exact h m.place t (Nat.le_refl _) (m.place_lt_resumed hcause ht) hfirst ht
    · intro h i t hplace hresumed hfirst ht
      rcases Nat.eq_or_lt_of_le hplace with rfl | hbehind
      · exact (h.resolve_left hfirst) t ht
      · exact m.kind_notMem_starters hcause hbehind hresumed ht

/-- In `print x x; var x;` the `print` statement is given up at the second name, and reading is
resumed at `var`. -/
theorem resumption_loses_only_the_refused_start_name :
    let tokens : List Token := [.keyword .printWord, .identifier, .identifier, .sign .semicolon,
      .keyword .varWord, .identifier, .sign .semicolon].map fun kind => ⟨kind, utf8 "x", .nil, 1⟩
    ∃ m : Mishap (body tokens), m.failure.cause = .expected .semicolonAfterValue ∧
      m.place = 2 ∧ m.resumed = 4 ∧
      ∀ i t, m.place ≤ i → i < m.resumed → i ≠ m.first → (body tokens)[i]? = some t →
        t.kind ∉ starters := by
  intro tokens
  let m : Mishap (body tokens) := ⟨fuelFor 7, tokens, List.suffix_refl tokens, _, rfl⟩
  have hplace : m.place = 2 := rfl
  have hname : ∀ t, (body tokens)[m.place]? = some t → t.kind ∉ starters := by
    rintro t ⟨⟩
    decide
  obtain ⟨-, -, -, hskipped⟩ :=
    (resumption_loses_only_the_refused_start tokens).2 m .semicolonAfterValue rfl
  exact ⟨m, rfl, hplace, rfl, hskipped.2 (.inr hname)⟩

/-- In `print x var = y;` the `print` statement is given up at `var`, which is then skipped.  So the
declaration that `var` starts is never tried, and what is wrong with it is not listed. -/
theorem resumption_loses_var_after_print :
    let tokens : List Token := [.keyword .printWord, .identifier, .keyword .varWord, .sign .equal,
      .identifier, .sign .semicolon].map fun kind => ⟨kind, utf8 "x", .nil, 1⟩
    (∃ (m : Mishap (body tokens)) (t : Token),
        m.failure.cause = .expected .semicolonAfterValue ∧ m.place < m.resumed ∧
          m.place ≠ m.first ∧ (body tokens)[m.place]? = some t ∧ t.kind ∈ starters ∧
          (readTokens .recovering tokens).result =
            .error (.every [.ofFailure (body tokens).length (stop tokens) m.failure])) ∧
      ∃ e, (readTokens .failFast (tokens.drop 2)).result = .error (.first e) := by
  intro tokens
  let m : Mishap (body tokens) := ⟨fuelFor 6, tokens, List.suffix_refl tokens, _, rfl⟩
  have hplace : m.place = 2 := rfl
  have hresumed : m.resumed = 6 := rfl
  refine ⟨⟨m, ⟨.keyword .varWord, utf8 "x", .nil, 1⟩, rfl, ?_, ?_, rfl, ?_, rfl⟩, _, rfl⟩
  · rw [hplace, hresumed]
    decide
  · rw [hplace]
    decide
  · decide

end LoxScript.Grammar
