import LoxScript.Proofs.Grammar.Phrase
import LoxScript.Proofs.Grammar.Resumption

/-!
# Texts put together from declarations

A text is put together from segments.  Some of them are declarations; the others are broken, but
each of these ends with its only semicolon, opens no block, and has no start of a statement after
its first token.  When such a text is read and reading goes on after mistakes, every broken segment
is found, its mistake is the one that it has when it is read alone, and no mistake is found besides.

A broken segment is given up before its semicolon, and reading is resumed right behind it.  Nothing
behind the semicolon has been looked at by then, so the mistake cannot depend on it.
-/

namespace LoxScript.Grammar

open LoxScript.Parser

/-! ### Segments -/

/-- The tokens of one declaration. -/
structure IsDeclaration (segment : List Token) : Prop where
  kind_ne : ∀ t ∈ segment, t.kind ≠ .endOfInput
  accepted : ∃ s, (readTokens .failFast segment).result = .ok [s]

/-- Tokens that are no program, but end like a simple statement. -/
structure IsBroken (segment : List Token) : Prop where
  rejected : ∀ p, (readTokens .failFast segment).result ≠ .ok p
  semicolon : ∃ last ∈ segment.getLast?, last.kind = .sign .semicolon
  inner : ∀ t ∈ segment.dropLast, t.kind ≠ .sign .semicolon
  kind_ne : ∀ t ∈ segment, t.kind ≠ .endOfInput ∧ t.kind ≠ .sign .leftBrace
  starters : ∀ t ∈ segment.tail, t.kind ∉ starters
  otherwise : ¬ Starts [.keyword .elseWord] segment

/-- The mistakes of the segments, each of which is read alone, at their places in a text that goes
on with the segments after so many tokens. -/
def mistakes : Nat → List (List Token) → List SyntaxError
  | _, [] => []
  | offset, segment :: segments =>
    match (readTokens .failFast segment).result with
    | .error (.first e) =>
      { e with position := offset + e.position } :: mistakes (offset + segment.length) segments
    | _ => mistakes (offset + segment.length) segments

/-! ### Broken segments -/

section Broken

variable {w rest : List Token} {last : Token} {fuel : Nat}

/-- What is skipped behind a mistake before a semicolon ends with it. -/
lemma resync_append_semicolon {v : List Token} (hlast : last.kind = .sign .semicolon)
    (hsemicolon : ∀ t ∈ v, t.kind ≠ .sign .semicolon)
    (hstarters : ∀ t ∈ v.tail, t.kind ∉ starters) :
    resync (v ++ last :: rest) = rest := by
  induction v with
  | nil => exact resync_of_semicolon hlast
  | cons t v ih =>
    have ht : t.kind ≠ .sign .semicolon := hsemicolon t List.mem_cons_self
    have hv : resync (v ++ last :: rest) = rest :=
      ih (fun u hu => hsemicolon u (List.mem_cons_of_mem t hu))
        fun u hu => hstarters u (List.mem_of_mem_tail hu)
    cases v with
    | nil =>
      have hnext : last.kind ∉ starters := by
        rw [hlast]
        decide
      exact (resync_of_not_starter ht hnext).trans hv
    | cons next v =>
      exact (resync_of_not_starter ht (hstarters next List.mem_cons_self)).trans hv

lemma retains_attempt (fuel : Nat) : Retains (attempt .failFast fuel) := by
  have hdeclaration : ∀ fuel, Retains (attempt .failFast fuel) →
      Retains (declaration .failFast (fuel + 1)) := by
    intro fuel h ts f hf
    rw [declaration_succ, result_traced] at hf
    exact h (result_eq_error_of_recovering hf)
  obtain ⟨hstatement, -, -⟩ :=
    sequential_retains.statement_declaration_declarations_of_unread .failFast .failFast
      (fun _ _ h => by cases h) retains_expression hdeclaration fuel
  exact sequential_retains.phrasal.attempt .failFast .failFast (retains_expression fuel) hstatement

lemma tracks_attempt {t : Token} {tail : List Token} (htail : Ahead t tail) (fuel : Nat) :
    Tracks True t rest tail (attempt .failFast fuel) (attempt .failFast fuel) := by
  have hexpression : ∀ fuel, Tracks True t rest tail (expression fuel) (expression fuel) :=
    fun fuel => (tracks_expression htail fuel).mono
  obtain ⟨hstatement, -, -⟩ :=
    (sequential_tracks htail).statement_declaration_declarations .failFast .failFast hexpression
      (tracks_expressionStatement htail) tracks_recovering
      (fun _ _ => tracks_declarations_succ htail) fuel
  exact (sequential_tracks htail).phrasal.attempt .failFast .failFast (hexpression fuel) hstatement

/-- What is given up before the last semicolon is given up in the same way whatever follows. -/
lemma result_attempt_append (hw : Single w last) {f : Failure}
    (hf : (attempt .failFast fuel (w ++ [last])).result = .error f) (rest : List Token) :
    ∃ u v, f.blamed = u ++ [last] ∧ v <:+ w ∧
      (attempt .failFast fuel (w ++ last :: rest)).result =
        .error ⟨f.cause, u ++ last :: rest, v ++ last :: rest⟩ := by
  have htracks : Tracks True last [] (last :: rest) (attempt .failFast fuel)
      (attempt .failFast fuel) := tracks_attempt (ahead_cons last rest) fuel
  have hlast : [last] <:+ f.unread := by
    rcases closes_attempt fuel .failFast hw with ⟨f', hf', hlast⟩ | ⟨s, hs⟩
    · obtain rfl : f = f' := Except.error.inj (hf.symm.trans hf')
      exact hlast
    · rw [hs] at hf
      cases hf
  obtain ⟨-, hunread⟩ := (htracks.within _).2 f hf
  obtain ⟨u, hu⟩ := hlast.trans (retains_attempt fuel hf)
  obtain ⟨v, hv⟩ := hlast
  have hvw : v <:+ w := by
    obtain ⟨taken, htaken⟩ := hunread
    rw [← hv, ← List.append_assoc] at htaken
    exact ⟨taken, List.append_cancel_right htaken⟩
  obtain ⟨cause, blamed, unread⟩ := f
  obtain rfl : u ++ [last] = blamed := hu
  obtain rfl : v ++ [last] = unread := hv
  refine ⟨u, v, rfl, hvw, ?_⟩
  cases cause with
  | invalidTarget => exact (htracks.twin w).retained u v hf (List.cons_ne_nil last rest)
  | expected what =>
    have huv : u ++ [last] = v ++ [last] := by
      rcases blamesNext_attempt .failFast fuel hf with htarget | hsame
      · cases htarget
      · exact hsame
    obtain rfl : u = v := List.append_cancel_right huv
    refine ((htracks.twin w).expected what u hf).resolve_right ?_
    rintro ⟨-, -, hnil, -⟩
    cases hnil

/-- Reading is resumed right behind a broken segment, and its mistake is overcome. -/
lemma declaration_broken (hw : Single w last)
    (hstarters : ∀ t ∈ (w ++ [last]).tail, t.kind ∉ starters) {f : Failure}
    (hf : (attempt .failFast fuel (w ++ [last])).result = .error f)
    (rest : List Token) :
    ∃ u v, f.blamed = u ++ [last] ∧
      (declaration .recovering (fuel + 1) (w ++ last :: rest)).overcome =
        [⟨f.cause, u ++ last :: rest, v ++ last :: rest⟩] ∧
      (declaration .recovering (fuel + 1) (w ++ last :: rest)).result = .ok (none, rest) := by
  obtain ⟨u, v, hblamed, hvw, hstrict⟩ := result_attempt_append hw hf rest
  obtain ⟨before, rfl⟩ := hvw
  have hbraces : ∀ t ∈ before, t.kind ≠ .sign .leftBrace :=
    fun t ht => (hw.inner t (List.mem_append_left v ht)).2
  have hnil : (attempt .recovering fuel (before ++ v ++ last :: rest)).overcome = [] := by
    rw [List.append_assoc] at hstrict ⊢
    exact (plain_attempt fuel).overcome before (v ++ last :: rest) (left_of_error hstrict) hbraces
  have hlenient := ((plain_attempt fuel).agrees _).result_of_overcome_eq_nil hnil
  have hskip := recovering_of_error (hlenient.trans hstrict)
  have htail : ∀ t ∈ v.tail, t ∈ (before ++ v ++ [last]).tail := by
    intro t ht
    cases before with
    | cons first before =>
      exact List.mem_append_left [last] (List.mem_append_right before (List.mem_of_mem_tail ht))
    | nil =>
      cases v with
      | nil => cases ht
      | cons first v => exact List.mem_append_left [last] ht
  have hresync : resync (v ++ last :: rest) = rest :=
    resync_append_semicolon hw.last
      (fun t ht => (hw.inner t (List.mem_append_right before ht)).1)
      fun t ht => hstarters t (htail t ht)
  refine ⟨u, v, hblamed, ?_, ?_⟩
  · rw [declaration_succ, traced, hskip, hnil]
    rfl
  · rw [declaration_succ, traced, hskip, hresync]

end Broken

/-- A mistake that stands in a longer text is at another place, but the same. -/
lemma ofFailure_append {segment u : List Token} {last : Token} {f : Failure}
    (hblamed : f.blamed = u ++ [last]) (hlength : f.blamed.length ≤ segment.length)
    (stop stop' : Token) (offset : Nat) (rest unread : List Token) :
    SyntaxError.ofFailure (offset + (segment ++ rest).length) stop'
        ⟨f.cause, u ++ last :: rest, unread⟩ =
      { SyntaxError.ofFailure segment.length stop f with
        position := offset + (SyntaxError.ofFailure segment.length stop f).position } := by
  rw [hblamed, List.length_append, List.length_singleton] at hlength
  have htoken : (u ++ last :: rest).headD stop' = (u ++ [last]).headD stop := by
    cases u with
    | nil => rfl
    | cons t u => rfl
  simp only [SyntaxError.ofFailure, hblamed, htoken, List.length_append, List.length_cons,
    List.length_nil, SyntaxError.mk.injEq, true_and]
  omega

/-! ### One segment after the other -/

section Segment

variable {segment rest : List Token} {fuel : Nat}

/-- Tokens that are read as one statement have a tree. -/
lemma IsDeclaration.exists_tree (h : IsDeclaration segment) :
    ∃ D : StmtTree .declaration, D.tokens = segment ∧ D.Settled [] := by
  obtain ⟨s, hs⟩ := h.accepted
  rw [result_readTokens_failFast_eq_ok, body_of_forall_ne h.kind_ne] at hs
  obtain ⟨B, hvalue, htokens, hsettled⟩ := (statement_declarations_sound _).2.2 [] hs
  cases B with
  | nothing => cases hvalue
  | more first others =>
    cases others with
    | nothing =>
      rw [StmtTree.tokens, StmtTree.tokens, List.append_nil, List.append_nil] at htokens
      exact ⟨first, htokens.symm, hsettled.1⟩
    | more second others => cases hvalue

/-- A declaration among the segments is read as it is alone. -/
lemma IsDeclaration.declaration (h : IsDeclaration segment)
    (hrest : ¬ Starts [.keyword .elseWord] rest) (hfuel : 3 * segment.length + 1 ≤ fuel) :
    (declaration .recovering fuel (segment ++ rest)).overcome = [] ∧
      ∃ s, (declaration .recovering fuel (segment ++ rest)).result = .ok (some s, rest) := by
  obtain ⟨D, rfl, hsettled⟩ := h.exists_tree
  have hrest' : D.Settled rest := hsettled.replace fun hstart => absurd hstart hrest
  obtain ⟨hnil, hread⟩ := declaration_of_settled .recovering hrest' hfuel
  exact ⟨hnil, _, hread⟩

lemma IsBroken.exists_single (h : IsBroken segment) :
    ∃ w last, segment = w ++ [last] ∧ Single w last := by
  obtain ⟨last, hlast, hsemicolon⟩ := h.semicolon
  have hsegment := List.dropLast_append_getLast? last hlast
  refine ⟨segment.dropLast, last, hsegment.symm, fun t ht => ⟨h.inner t ht, ?_⟩, hsemicolon⟩
  exact (h.kind_ne t (List.mem_of_mem_dropLast ht)).2

/-- The mistake of a broken segment is found by the declaration that begins it. -/
lemma IsBroken.exists_failure (h : IsBroken segment) (hfuel : 3 * segment.length + 4 ≤ fuel) :
    ∃ w last f, segment = w ++ [last] ∧ Single w last ∧
      (attempt .failFast fuel segment).result = .error f ∧
      (readTokens .failFast segment).result =
        .error (.first (.ofFailure segment.length (stop segment) f)) := by
  obtain ⟨w, last, rfl, hsingle⟩ := h.exists_single
  have hbody : body (w ++ [last]) = w ++ [last] := body_of_forall_ne fun t ht => (h.kind_ne t ht).1
  have hbound : 3 * (w ++ [last]).length + 6 ≤ fuel + 2 := by omega
  have hprogram : program .failFast (w ++ [last]) =
      someDeclarations .failFast [] (fuel + 1) (w ++ [last]) := by
    rw [program_eq_declarations .failFast hbound]
    cases w with
    | nil => exact declarations_cons List.not_mem_nil
    | cons t w => exact declarations_cons List.not_mem_nil
  refine ⟨w, last, ?_⟩
  rcases closes_attempt fuel .failFast hsingle with ⟨f, hf, -⟩ | ⟨s, hs⟩
  · refine ⟨f, rfl, hsingle, hf, result_readTokens_failFast_eq_error.2 ⟨f, ?_, by rw [hbody]⟩⟩
    rw [hbody, hprogram]
    refine result_bind_of_error ?_
    rw [declaration_succ, result_traced]
    exact result_recovering_failFast_eq_error.2 hf
  · refine absurd (result_readTokens_failFast_eq_ok.2 ?_) (h.rejected [s])
    have hfirst : (declaration .failFast (fuel + 1) (w ++ [last])).result = .ok (some s, []) := by
      rw [declaration_succ, result_traced]
      exact result_recovering_failFast.2 ⟨s, rfl, hs⟩
    rw [hbody, hprogram, someDeclarations, result_bind_of_ok hfirst]
    rfl

/-- A broken segment has its own mistake before any text, and reading is resumed behind it. -/
lemma IsBroken.declaration (h : IsBroken segment) (hfuel : 3 * segment.length + 4 ≤ fuel)
    (rest : List Token) (offset : Nat) (last : Token) :
    ∃ e f, (readTokens .failFast segment).result = .error (.first e) ∧
      (declaration .recovering (fuel + 1) (segment ++ rest)).overcome = [f] ∧
      (declaration .recovering (fuel + 1) (segment ++ rest)).result = .ok (none, rest) ∧
      SyntaxError.ofFailure (offset + (segment ++ rest).length) last f =
        { e with position := offset + e.position } := by
  obtain ⟨w, semicolon, failure, rfl, hsingle, hfailure, hmistake⟩ := h.exists_failure hfuel
  obtain ⟨u, v, hblamed, hovercome, hresult⟩ :=
    declaration_broken hsingle h.starters hfailure rest
  have hlength : failure.blamed.length ≤ (w ++ [semicolon]).length := by
    have htracks : Tracks True semicolon [] [] (attempt .failFast fuel) (attempt .failFast fuel) :=
      tracks_attempt (ahead_nil semicolon) fuel
    exact ((htracks.within _).2 failure hfailure).1.length_le
  rw [List.append_cons] at hovercome hresult
  exact ⟨_, _, hmistake, hovercome, hresult, ofFailure_append hblamed hlength _ _ _ _ _⟩

/-- No segment starts with `else`. -/
lemma not_starts_segment (h : IsDeclaration segment ∨ IsBroken segment) (rest : List Token) :
    segment ≠ [] ∧ ¬ Starts [.keyword .elseWord] (segment ++ rest) := by
  rcases h with hdeclaration | hbroken
  · obtain ⟨D, rfl, -⟩ := hdeclaration.exists_tree
    exact ⟨D.tokens_ne_nil rfl, ((D.starts rfl).append rest).not_of_disjoint (by decide)⟩
  · obtain ⟨w, last, rfl, -⟩ := hbroken.exists_single
    have hne : w ++ [last] ≠ [] :=
      List.append_ne_nil_of_right_ne_nil w (List.cons_ne_nil last [])
    rw [starts_append_of_ne_nil hne]
    exact ⟨hne, hbroken.otherwise⟩

end Segment

lemma not_starts_flatten {segments : List (List Token)}
    (h : ∀ segment ∈ segments, IsDeclaration segment ∨ IsBroken segment) :
    ¬ Starts [.keyword .elseWord] segments.flatten := by
  cases segments with
  | nil => exact not_starts_nil
  | cons segment segments => exact (not_starts_segment (h segment List.mem_cons_self) _).2

/-- The mistakes that are overcome among segments are those of the segments. -/
lemma overcome_segments {segments : List (List Token)}
    (h : ∀ segment ∈ segments, IsDeclaration segment ∨ IsBroken segment) (offset : Nat)
    {fuel : Nat} (hfuel : 3 * segments.flatten.length + 6 ≤ fuel) (stop : Token) :
    (declarations .recovering [] fuel segments.flatten).overcome.map
      (.ofFailure (offset + segments.flatten.length) stop) = mistakes offset segments := by
  induction segments generalizing offset fuel with
  | nil =>
    rw [List.flatten_nil, declarations_nil]
    rfl
  | cons segment segments ih =>
    obtain ⟨hsegment, hsegments⟩ := List.forall_mem_cons.1 h
    obtain ⟨hne, -⟩ := not_starts_segment hsegment segments.flatten
    have hpos := List.length_pos_of_ne_nil hne
    have hlength : (segment ++ segments.flatten).length =
        segment.length + segments.flatten.length := List.length_append
    rw [List.flatten_cons] at hfuel ⊢
    obtain ⟨fuel, rfl⟩ : ∃ k, fuel = k + 2 := ⟨fuel - 2, by omega⟩
    have hbound : 3 * segments.flatten.length + 6 ≤ fuel + 1 := by omega
    have hothers := ih hsegments (offset + segment.length) hbound
    rw [Nat.add_assoc, ← hlength] at hothers
    have hsome : declarations .recovering [] (fuel + 2) (segment ++ segments.flatten) =
        someDeclarations .recovering [] (fuel + 1) (segment ++ segments.flatten) := by
      obtain ⟨t, ts, rfl⟩ := List.exists_cons_of_ne_nil hne
      exact declarations_cons List.not_mem_nil
    rw [hsome]
    rcases hsegment with hdeclaration | hbroken
    · obtain ⟨s, hs⟩ := hdeclaration.accepted
      obtain ⟨hnil, s', hresult⟩ :=
        hdeclaration.declaration (not_starts_flatten hsegments)
          (show 3 * segment.length + 1 ≤ fuel + 1 by omega)
      rw [overcome_someDeclarations hresult, hnil, List.nil_append, hothers, mistakes, hs]
    · obtain ⟨e, f, hmistake, hovercome, hresult, hmoved⟩ :=
        hbroken.declaration (show 3 * segment.length + 4 ≤ fuel by omega) segments.flatten offset
          stop
      rw [overcome_someDeclarations hresult, hovercome, List.singleton_append, List.map_cons,
        hothers, hmoved, mistakes, hmistake]

/-! ### Whole texts -/

section Whole

variable {segments : List (List Token)}

lemma mistakes_ne_nil (h : ∃ segment ∈ segments, IsBroken segment) (offset : Nat) :
    mistakes offset segments ≠ [] := by
  induction segments generalizing offset with
  | nil =>
    obtain ⟨segment, hmem, -⟩ := h
    exact absurd hmem List.not_mem_nil
  | cons segment segments ih =>
    rw [mistakes]
    split
    case h_1 => exact List.cons_ne_nil _ _
    case h_2 hother =>
      obtain ⟨broken, hmem, hbroken⟩ := h
      rcases List.mem_cons.1 hmem with rfl | hlater
      · obtain ⟨-, -, f, -, -, -, hmistake⟩ := hbroken.exists_failure (Nat.le_refl _)
        exact absurd hmistake (hother _)
      · exact ih ⟨broken, hlater, hbroken⟩ _

lemma body_flatten_append (h : ∀ segment ∈ segments, IsDeclaration segment ∨ IsBroken segment)
    {tail : List Token} (htail : ∀ t ∈ tail.head?, t.kind = .endOfInput) :
    body (segments.flatten ++ tail) = segments.flatten := by
  have hkinds : ∀ t ∈ segments.flatten, t.kind ≠ .endOfInput := by
    intro t ht
    obtain ⟨segment, hsegment, hmem⟩ := List.mem_flatten.1 ht
    rcases h segment hsegment with hdeclaration | hbroken
    · exact hdeclaration.kind_ne t hmem
    · exact (hbroken.kind_ne t hmem).1
  rw [body_append_of_forall_ne hkinds, body_eq_nil htail, List.append_nil]

end Whole

/-- In a text that is put together from declarations and broken segments, reading that goes on
after mistakes finds exactly the mistakes that the broken segments have when they are read alone, in
their order. -/
theorem recovering_lists_mistakes_of_broken_segments (segments : List (List Token))
    (h : ∀ segment ∈ segments, IsDeclaration segment ∨ IsBroken segment)
    (hbroken : ∃ segment ∈ segments, IsBroken segment) (tail : List Token)
    (htail : ∀ t ∈ tail.head?, t.kind = .endOfInput) :
    (readTokens .recovering (segments.flatten ++ tail)).result =
      .error (.every (mistakes 0 segments)) := by
  have hbody := body_flatten_append h htail
  have hmistakes : (program .recovering segments.flatten).overcome.map
      (.ofFailure segments.flatten.length (stop (segments.flatten ++ tail))) =
        mistakes 0 segments := by
    rw [program_eq_declarations .recovering (Nat.le_refl _), ← Nat.zero_add segments.flatten.length]
    exact overcome_segments h 0 (by rw [Nat.zero_add]) _
  rw [result_readTokens_recovering_eq_error, hbody, hmistakes]
  refine ⟨fun hnil => mistakes_ne_nil hbroken 0 ?_, rfl⟩
  rw [← hmistakes, hnil, List.map_nil]

/-- A block with a conditional statement in it stands between the broken declarations `var = x;` and
`(x) = x;`, and a `print` statement after them. -/
theorem recovering_lists_mistakes_of_broken_segments_between_blocks :
    let segment : List Kind → List Token := fun kinds =>
      kinds.map fun kind => ⟨kind, utf8 "x", .nil, 1⟩
    let segments : List (List Token) :=
      [segment [.keyword .varWord, .sign .equal, .identifier, .sign .semicolon],
        segment [.sign .leftBrace, .keyword .ifWord, .sign .leftParen, .identifier,
          .sign .rightParen, .identifier, .sign .semicolon, .keyword .elseWord, .sign .leftBrace,
          .sign .rightBrace, .sign .rightBrace],
        segment [.sign .leftParen, .identifier, .sign .rightParen, .sign .equal, .identifier,
          .sign .semicolon],
        segment [.keyword .printWord, .identifier, .sign .semicolon]]
    (readTokens .recovering (segments.flatten ++ [Token.atEnd 1])).result =
        .error (.every (mistakes 0 segments)) ∧
      mistakes 0 segments =
        [⟨.expected .variableName, ⟨.sign .equal, utf8 "x", .nil, 1⟩, 1⟩,
          ⟨.invalidTarget, ⟨.sign .equal, utf8 "x", .nil, 1⟩, 18⟩] := by
  intro segment segments
  have hvar : IsBroken (segment [.keyword .varWord, .sign .equal, .identifier,
      .sign .semicolon]) :=
    ⟨fun p => nofun, ⟨_, rfl, rfl⟩, by decide, by decide, by decide, by decide⟩
  have hassign : IsBroken (segment [.sign .leftParen, .identifier, .sign .rightParen, .sign .equal,
      .identifier, .sign .semicolon]) :=
    ⟨fun p => nofun, ⟨_, rfl, rfl⟩, by decide, by decide, by decide, by decide⟩
  have hall : ∀ s ∈ segments, IsDeclaration s ∨ IsBroken s := by
    simp only [segments, List.forall_mem_cons]
    exact ⟨.inr hvar, .inl ⟨by decide, _, rfl⟩, .inr hassign, .inl ⟨by decide, _, rfl⟩,
      List.forall_mem_nil _⟩
  exact ⟨recovering_lists_mistakes_of_broken_segments segments hall ⟨_, List.mem_cons_self, hvar⟩
    [Token.atEnd 1] (by simp [Token.atEnd]), rfl⟩

end LoxScript.Grammar
