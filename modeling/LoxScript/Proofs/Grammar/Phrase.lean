import LoxScript.Proofs.Grammar.Modes

/-!
# What is read up to a semicolon

An expression takes none of the tokens that hold statements together: no semicolon and no brace.  So
in a text whose only semicolon is its last token, a declaration without blocks takes that token
exactly when it succeeds.

Only blocks go on after a mistake inside them.  As long as no brace has been taken, it makes no
difference whether reading goes on after mistakes.
-/

namespace LoxScript.Grammar

open LoxScript.Parser

/-! ### Tokens that are not taken -/

/-- The parser takes no tokens of the kinds. -/
def Spares (kinds : List Kind) {α : Type} (p : Parser α) : Prop :=
  ∀ ts, ∃ taken, ts = taken ++ left (p ts) ∧ ∀ t ∈ taken, t.kind ∉ kinds

section Spares

variable {kinds : List Kind} {α β : Type} {p : Parser α} {g : α → Parser β}

lemma Spares.of_left_eq (h : ∀ ts, left (p ts) = ts) : Spares kinds p := by
  intro ts
  exact ⟨[], (h ts).symm, List.forall_mem_nil _⟩

lemma Spares.bind (hp : Spares kinds p) (hg : ∀ a, Spares kinds (g a)) :
    Spares kinds (p >>= g) := by
  intro ts
  obtain ⟨taken, htaken, hkinds⟩ := hp ts
  cases h : (p ts).result with
  | error f =>
    rw [left_of_error h] at htaken
    exact ⟨taken, by rwa [left_of_error (result_bind_of_error h)], hkinds⟩
  | ok r =>
    obtain ⟨a, mid⟩ := r
    obtain ⟨taken', htaken', hkinds'⟩ := hg a mid
    rw [left_of_ok h] at htaken
    refine ⟨taken ++ taken', ?_, List.forall_mem_append.2 ⟨hkinds, hkinds'⟩⟩
    rw [left_bind_of_ok h, List.append_assoc, ← htaken', ← htaken]

lemma spares_accept? {accepted : List Kind} (h : ∀ kind ∈ accepted, kind ∉ kinds) :
    Spares kinds (accept? accepted) := by
  intro ts
  by_cases hstarts : Starts accepted ts
  · obtain ⟨t, mid, rfl, hkind⟩ := hstarts.exists_cons
    rw [left_of_ok (result_accept?_cons hkind)]
    exact ⟨[t], rfl, List.forall_mem_singleton.2 (h t.kind hkind)⟩
  · rw [left_of_ok (result_accept?_of_not_starts hstarts)]
    exact ⟨[], rfl, List.forall_mem_nil _⟩

lemma spares_expect {kind : Kind} (h : kind ∉ kinds) (what : Expected) :
    Spares kinds (expect kind what) := by
  intro ts
  by_cases hstarts : Starts [kind] ts
  · obtain ⟨t, mid, rfl, hmem⟩ := hstarts.exists_cons
    have hkind : t.kind = kind := List.mem_singleton.1 hmem
    rw [left_of_ok (result_expect_cons hkind)]
    exact ⟨[t], rfl, List.forall_mem_singleton.2 (hkind ▸ h)⟩
  · rw [left_of_error (result_expect_of_not_starts hstarts)]
    exact ⟨[], rfl, List.forall_mem_nil _⟩

lemma phrasal_spares (h : ∀ kind ∈ phraseKinds, kind ∉ kinds) :
    Phrasal phraseKinds fun {α} (p _ : Parser α) => Spares kinds p where
  pure _ := .of_left_eq fun _ => rfl
  bind := Spares.bind
  traced _ hp := hp
  accept? hsub := spares_accept? fun kind hkind => h kind (hsub hkind)
  expect hkind _ := spares_expect (h _ hkind) _
  fail := .of_left_eq fun _ => rfl

/-- Expressions take only the tokens that they are made of. -/
lemma spares_expression (h : ∀ kind ∈ phraseKinds, kind ∉ kinds) (fuel : Nat) :
    Spares kinds (expression fuel) := by
  have hsucc : ∀ fuel, Spares kinds (unary fuel) → Spares kinds (assignment fuel) →
      Spares kinds (assignment (fuel + 1)) := fun fuel =>
    (phrasal_spares h).assignment_succ (.of_left_eq fun _ => rfl)
      (fun _ => .of_left_eq fun _ => rfl)
  exact ((phrasal_spares h).expression_assignment_unary hsucc fuel).1

end Spares

/-! ### Declarations that end with the only semicolon -/

/-- The text has one semicolon, at its end, and opens no block. -/
structure Single (w : List Token) (last : Token) : Prop where
  inner : ∀ t ∈ w, t.kind ≠ .sign .semicolon ∧ t.kind ≠ .sign .leftBrace
  last : last.kind = .sign .semicolon

/-- The parser takes the only semicolon of a text exactly when it succeeds. -/
def Closes {α : Type} (p : Parser α) : Prop :=
  ∀ ⦃w last⦄, Single w last →
    (∃ f, (p (w ++ [last])).result = .error f ∧ [last] <:+ f.unread) ∨
      ∃ a, (p (w ++ [last])).result = .ok (a, [])

section Closes

variable {α β : Type} {p : Parser α} {g : α → Parser β} {w : List Token} {last : Token}

/-- What takes no semicolon leaves the last one. -/
lemma Single.exists_left (h : Single w last) (hp : Spares [.sign .semicolon] p) :
    ∃ v, left (p (w ++ [last])) = v ++ [last] ∧ Single v last := by
  obtain ⟨taken, htaken, hkinds⟩ := hp (w ++ [last])
  rcases List.eq_nil_or_concat (left (p (w ++ [last]))) with hnil | ⟨v, x, hconcat⟩
  · rw [hnil, List.append_nil] at htaken
    have hmem : last ∈ taken := htaken ▸ List.mem_append_right w List.mem_cons_self
    exact absurd (List.mem_singleton.2 h.last) (hkinds last hmem)
  · rw [List.concat_eq_append] at hconcat
    rw [hconcat, ← List.append_assoc] at htaken
    obtain ⟨rfl, hx⟩ := List.append_inj' htaken rfl
    obtain rfl : last = x := List.singleton_inj.1 hx
    exact ⟨v, hconcat, fun t ht => h.inner t (List.mem_append_right taken ht), h.last⟩

lemma Closes.traced (rule : Rule) (h : Closes p) : Closes (traced rule p) :=
  h

lemma Closes.bind (hp : Spares [.sign .semicolon] p) (hg : ∀ a, Closes (g a)) :
    Closes (p >>= g) := by
  intro w last h
  obtain ⟨v, hleft, hv⟩ := h.exists_left hp
  cases hresult : (p (w ++ [last])).result with
  | error f =>
    rw [left_of_error hresult] at hleft
    exact .inl ⟨f, result_bind_of_error hresult, hleft ▸ List.suffix_append v [last]⟩
  | ok r =>
    obtain ⟨a, mid⟩ := r
    rw [left_of_ok hresult] at hleft
    rw [result_bind_of_ok hresult, hleft]
    exact hg a hv

/-- A part that has taken the semicolon may be followed by what takes nothing at the end. -/
lemma Closes.bind_nil (hp : Closes p) (hg : ∀ a, ∃ b, (g a []).result = .ok (b, [])) :
    Closes (p >>= g) := by
  intro w last h
  rcases hp h with ⟨f, hf, hlast⟩ | ⟨a, ha⟩
  · exact .inl ⟨f, result_bind_of_error hf, hlast⟩
  · obtain ⟨b, hb⟩ := hg a
    exact .inr ⟨b, by rw [result_bind_of_ok ha, hb]⟩

lemma closes_expect_semicolon (what : Expected) : Closes (expect (.sign .semicolon) what) := by
  intro w last h
  cases w with
  | nil => exact .inr ⟨last, result_expect_cons h.last⟩
  | cons u w =>
    have hu : ¬ Starts [.sign .semicolon] (u :: w ++ [last]) := by
      rw [List.cons_append, starts_cons, List.mem_singleton]
      exact (h.inner u List.mem_cons_self).1
    exact .inl ⟨_, result_expect_of_not_starts hu, List.suffix_append _ _⟩

lemma closes_fail (what : Expected) : Closes (fail what : Parser α) :=
  fun w last _ => .inl ⟨_, rfl, List.suffix_append w [last]⟩

/-- No block is opened where there is no brace. -/
lemma Closes.accept?_leftBrace {g : Option Token → Parser β} (h : Closes (g none)) :
    Closes (accept? [.sign .leftBrace] >>= g) := by
  intro w last hw
  have hstarts : ¬ Starts [.sign .leftBrace] (w ++ [last]) := by
    intro hstarts
    obtain ⟨t, mid, htext, hkind⟩ := hstarts.exists_cons
    have hbrace : t.kind = .sign .leftBrace := List.mem_singleton.1 hkind
    have hmem : t ∈ w ++ [last] := htext ▸ List.mem_cons_self
    rcases List.mem_append.1 hmem with hinner | hlast
    · exact (hw.inner t hinner).2 hbrace
    · rw [List.mem_singleton.1 hlast, hw.last] at hbrace
      cases hbrace
  rw [result_bind_of_ok (result_accept?_of_not_starts hstarts)]
  exact h hw

end Closes

section Statements

variable (fuel : Nat)

lemma spares_semicolon_expression : Spares [.sign .semicolon] (expression fuel) :=
  spares_expression (by decide) fuel

lemma closes_varDeclaration (keyword : Token) : Closes (varDeclaration fuel keyword) := by
  have hsemicolon : ∀ s : Stmt,
      Closes (expect (.sign .semicolon) .semicolonAfterVariable >>= fun _ => pure s) :=
    fun s => (closes_expect_semicolon _).bind_nil fun _ => ⟨s, rfl⟩
  refine .traced _ (.bind (spares_expect (by decide) _) fun name => ?_)
  refine .bind (spares_accept? (by decide)) fun equal? => ?_
  cases equal? with
  | none => exact hsemicolon _
  | some equal => exact .bind (spares_semicolon_expression fuel) fun initial => hsemicolon _

lemma closes_printStatement (keyword : Token) : Closes (printStatement fuel keyword) := by
  refine .traced _ (.bind (spares_semicolon_expression fuel) fun value => ?_)
  exact (closes_expect_semicolon _).bind_nil fun _ => ⟨_, rfl⟩

lemma closes_expressionStatement : Closes (expressionStatement fuel) := by
  refine .traced _ (.bind (.of_left_eq fun _ => rfl) fun before => ?_)
  refine .bind (spares_semicolon_expression fuel) fun e => ?_
  exact (closes_expect_semicolon _).bind_nil fun _ => ⟨_, rfl⟩

/-- Behind the semicolon that ends the consequence there is no alternative. -/
lemma closes_ifStatement {p : Parser Stmt} (h : Closes p) (keyword : Token) :
    Closes (ifStatement p fuel keyword) := by
  refine .traced _ (.bind (spares_expect (by decide) _) fun opening => ?_)
  refine .bind (spares_semicolon_expression fuel) fun condition => ?_
  refine .bind (spares_expect (by decide) _) fun closing => ?_
  exact h.bind_nil fun consequence => ⟨_, rfl⟩

lemma closes_statement (mode : Mode) : Closes (statement mode fuel) := by
  induction fuel with
  | zero => exact closes_fail _
  | succ fuel ih =>
    refine .traced _ (.bind (spares_accept? (by decide)) fun keyword? => ?_)
    cases keyword? with
    | some keyword => exact closes_ifStatement fuel ih keyword
    | none =>
      refine .bind (spares_accept? (by decide)) fun keyword? => ?_
      cases keyword? with
      | some keyword => exact closes_printStatement fuel keyword
      | none => exact Closes.accept?_leftBrace (closes_expressionStatement fuel)

/-- A declaration in a text with one semicolon takes it, or is given up before it. -/
lemma closes_attempt (mode : Mode) : Closes (attempt mode fuel) := by
  refine .bind (spares_accept? (by decide)) fun keyword? => ?_
  cases keyword? with
  | some keyword => exact closes_varDeclaration fuel keyword
  | none => exact closes_statement fuel mode

end Statements

/-! ### Mistakes outside of blocks -/

/-- The lenient parser overcomes nothing where the strict one ends before it has taken a brace. -/
structure Plain {α : Type} (strict lenient : Parser α) : Prop where
  narrows : Narrows strict
  agrees : ∀ ts, Agrees (strict ts) (lenient ts)
  overcome : ∀ before after, left (strict (before ++ after)) = after →
    (∀ t ∈ before, t.kind ≠ .sign .leftBrace) → (lenient (before ++ after)).overcome = []

section Plain

variable {α β : Type} {p q : Parser α} {f g : α → Parser β}

lemma Plain.of_overcome_eq_nil (hnarrows : Narrows p) (h : ∀ ts, (p ts).overcome = []) :
    Plain p p :=
  ⟨hnarrows, fun ts => .refl (h ts), fun _ _ _ _ => h _⟩

lemma Plain.bind (hp : Plain p q) (hf : ∀ a, Plain (f a) (g a)) : Plain (p >>= f) (q >>= g) := by
  refine ⟨narrows_bind hp.narrows fun a => (hf a).narrows,
    fun ts => (hp.agrees ts).bind fun a rest => (hf a).agrees rest, ?_⟩
  intro before after hleft hbraces
  cases hresult : (p (before ++ after)).result with
  | error failure =>
    rw [left_of_error (result_bind_of_error hresult)] at hleft
    have hnil := hp.overcome before after (by rw [left_of_error hresult, hleft]) hbraces
    have hsame := (hp.agrees _).result_of_overcome_eq_nil hnil
    rw [bind_of_error (hsame.trans hresult)]
    exact hnil
  | ok r =>
    obtain ⟨a, mid⟩ := r
    have hlater : left (f a mid) = after := by
      rw [← hleft, left_bind_of_ok hresult]
    -- What is left between the two parts ends with what is left in the end.
    have hmid := hp.narrows (before ++ after)
    rw [left_of_ok hresult] at hmid
    obtain ⟨between, rfl⟩ : ∃ between, between ++ after = mid := hlater ▸ (hf a).narrows mid
    obtain ⟨first, hfirst⟩ := hmid
    rw [← List.append_assoc] at hfirst
    obtain rfl : first ++ between = before := List.append_cancel_right hfirst
    rw [List.append_assoc] at hresult ⊢
    rw [List.forall_mem_append] at hbraces
    have hnil := hp.overcome first (between ++ after) (left_of_ok hresult) hbraces.1
    have hsame := (hp.agrees _).result_of_overcome_eq_nil hnil
    rw [bind_of_ok (hsame.trans hresult), hnil,
      (hf a).overcome between after hlater hbraces.2]
    rfl

lemma sequential_plain : Sequential fun {α} (p q : Parser α) => Plain p q where
  pure a := .of_overcome_eq_nil (compositional_narrows.pure a) fun _ => rfl
  bind := Plain.bind
  traced _ h := ⟨h.narrows, fun ts => ⟨(h.agrees ts).1, (h.agrees ts).2⟩, h.overcome⟩
  accept? kinds := .of_overcome_eq_nil (narrows_accept? kinds) fun _ => overcome_accept? kinds
  expect kind what :=
    .of_overcome_eq_nil (narrows_expect kind what) fun _ => overcome_expect kind what
  fail what := .of_overcome_eq_nil (compositional_narrows.fail what) fun _ => rfl

lemma plain_expression (fuel : Nat) : Plain (expression fuel) (expression fuel) :=
  .of_overcome_eq_nil (compositional_narrows.expression fuel) fun ts =>
    (compositional_agrees.expression fuel ts).overcome_eq

lemma plain_unread : Plain unread unread :=
  .of_overcome_eq_nil compositional_narrows.unread fun _ => rfl

/-- What follows a brace plays no part, for the brace has been taken. -/
lemma Plain.accept?_leftBrace {f g : Option Token → Parser β}
    (hnarrows : ∀ brace, Narrows (f (some brace)))
    (hagrees : ∀ brace ts, Agrees (f (some brace) ts) (g (some brace) ts))
    (hnone : Plain (f none) (g none)) :
    Plain (accept? [.sign .leftBrace] >>= f) (accept? [.sign .leftBrace] >>= g) := by
  refine ⟨narrows_bind (narrows_accept? _) fun o => ?_,
    fun ts => (Agrees.refl (overcome_accept? _)).bind fun o rest => ?_, ?_⟩
  · cases o with
    | some brace => exact hnarrows brace
    | none => exact hnone.narrows
  · cases o with
    | some brace => exact hagrees brace rest
    | none => exact hnone.agrees rest
  · intro before after hleft hbraces
    by_cases hstarts : Starts [.sign .leftBrace] (before ++ after)
    · obtain ⟨brace, mid, htext, hkind⟩ := hstarts.exists_cons
      exfalso
      cases before with
      | cons t before =>
        obtain rfl : t = brace := (List.cons.inj htext).1
        exact hbraces t List.mem_cons_self (List.mem_singleton.1 hkind)
      | nil =>
        obtain rfl : after = brace :: mid := htext
        have hshorter := hnarrows brace mid
        rw [List.nil_append, left_bind_of_ok (result_accept?_cons hkind)] at hleft
        rw [hleft] at hshorter
        exact absurd hshorter.length_le (by simp)
    · have haccept := result_accept?_of_not_starts hstarts
      rw [bind_of_ok haccept, overcome_accept?, List.nil_append]
      refine hnone.overcome before after ?_ hbraces
      rwa [left_bind_of_ok haccept] at hleft

end Plain

/-- Outside of blocks, reading that goes on after mistakes overcomes none inside a statement. -/
lemma plain_statement (fuel : Nat) :
    Plain (statement .failFast fuel) (statement .recovering fuel) := by
  induction fuel with
  | zero => exact sequential_plain.fail _
  | succ fuel ih =>
    have hnarrows := (narrows_statement_declaration_declarations .failFast fuel).2.2
    have hagrees := (agrees_statement_declaration_declarations fuel).2.2
    refine sequential_plain.traced _
      (sequential_plain.bind (sequential_plain.accept? _) fun o => ?_)
    cases o with
    | some keyword => exact sequential_plain.phrasal.ifStatement (plain_expression fuel) ih keyword
    | none =>
      refine sequential_plain.bind (sequential_plain.accept? _) fun o => ?_
      cases o with
      | some keyword =>
        exact sequential_plain.phrasal.printStatement (plain_expression fuel) keyword
      | none =>
        refine Plain.accept?_leftBrace (fun brace => ?_) (fun brace => ?_)
          (sequential_plain.phrasal.expressionStatement plain_unread (plain_expression fuel))
        · exact compositional_narrows.blockStatement
            (q := declarations .failFast [.sign .rightBrace] fuel) (hnarrows _) brace
        · exact compositional_agrees.blockStatement (hagrees _) brace

lemma plain_attempt (fuel : Nat) : Plain (attempt .failFast fuel) (attempt .recovering fuel) :=
  sequential_plain.phrasal.attempt .failFast .recovering (plain_expression fuel)
    (plain_statement fuel)

end LoxScript.Grammar
