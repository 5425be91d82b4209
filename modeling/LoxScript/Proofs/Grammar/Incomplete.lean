import LoxScript.Proofs.Grammar.Mending
import LoxScript.Proofs.Grammar.Source
import LoxScript.Proofs.Printing.Words
import LoxScript.Proofs.Token.LineBreak

/-!
# Scripts that end too early

A script whose further lines are still to come is either accepted as it is, or rejected as
incomplete: none of its own tokens is ever to blame.  In return, every script that is no program
because it ends too early can be continued, on new lines, until no token is missing.
-/

namespace LoxScript

open Grammar Scan LoxScript.Parser

/-! ### The place of a mistake -/

namespace Grammar

/-- A failure is blamed on the next token, unless it is that of an assignment. -/
def BlamesNext {α : Type} (p : Parser α) : Prop :=
  ∀ ⦃ts : List Token⦄ ⦃f : Failure⦄, (p ts).result = .error f →
    f.cause = .invalidTarget ∨ f.blamed = f.unread

lemma blamesNext_bind {α β : Type} {p : Parser α} {g : α → Parser β} (hp : BlamesNext p)
    (hg : ∀ a, BlamesNext (g a)) : BlamesNext (p >>= g) := by
  intro ts f h
  rcases result_bind_eq_error.1 h with herror | ⟨a, mid, -, herror⟩
  · exact hp herror
  · exact hg a herror

lemma blamesNext_accept? (kinds : List Kind) : BlamesNext (accept? kinds) :=
  fun _ _ h => absurd h result_accept?_ne_error

lemma blamesNext_expect (kind : Kind) (what : Expected) : BlamesNext (expect kind what) := by
  intro ts f h
  rw [eq_of_result_expect_eq_error h]
  exact .inr rfl

lemma compositional_blamesNext : Compositional fun {α} (p _ : Parser α) => BlamesNext p where
  pure _ _ _ h := by cases h
  bind := blamesNext_bind
  traced _ h _ _ hf := h hf
  unread _ _ h := by cases h
  accept? := blamesNext_accept?
  expect := blamesNext_expect
  fail _ _ _ h := by
    cases h
    exact .inr rfl
  failAtTarget _ _ _ h := by
    cases h
    exact .inl rfl

/-- Where no token is to blame, the text was read to its end. -/
lemma blamed_eq_nil_of_isAtEnd {words : List Token} (hwords : ∀ t ∈ words, Spelled t) {f : Failure}
    (hf : (program .failFast words).result = .error f) {total : Nat} {stop : Token}
    (hend : (SyntaxError.ofFailure total stop f).isAtEnd = true) :
    f.cause = .invalidTarget ∨ f.blamed = [] := by
  have hblames : BlamesNext (declarations .failFast [] (fuelFor words.length)) :=
    (compositional_blamesNext.statement_declaration_declarations .failFast .failFast
      (fun h ts f hf => h (result_recovering_failFast_eq_error.1 hf)) _).2.2 []
  refine (hblames hf).imp_right fun hblamed => ?_
  have hsuffix : f.unread <:+ words := by
    have hnarrows : left (program .failFast words) <:+ words :=
      (narrows_statement_declaration_declarations .failFast (fuelFor words.length)).2.2 [] words
    rwa [left_of_error hf] at hnarrows
  rw [← hblamed] at hsuffix
  cases hlist : f.blamed with
  | nil => rfl
  | cons t ts =>
    rw [hlist] at hsuffix
    have hmem : t ∈ words := hsuffix.subset List.mem_cons_self
    have hkind : t.kind = .endOfInput := by
      simpa [SyntaxError.isAtEnd, SyntaxError.ofFailure, hlist] using hend
    exact absurd hkind (hwords t hmem).kind_ne_endOfInput

end Grammar

/-! ### Scripts and their words -/

section Words

variable {source : Bytes} {words : List Token} {last : Int}
  (hscan : scan source = .ok (words ++ [Token.atEnd last])) (hwords : ∀ t ∈ words, Spelled t)

include hscan hwords

lemma parse_eq_ok_iff_program {p : Program} :
    parse .failFast source = .ok p ↔ (program .failFast words).result = .ok (p, []) := by
  unfold parse readSource
  rw [hscan]
  dsimp only
  rw [result_readTokens_failFast_eq_ok, body_of_spelled hwords]

/-- The mistake of a script is a failure to read its words. -/
lemma parse_eq_error_iff_program {r : Rejection} :
    parse .failFast source = .error r ↔ ∃ f, (program .failFast words).result = .error f ∧
      r = .first (.ofFailure words.length (Token.atEnd last) f) := by
  unfold parse readSource
  rw [hscan]
  dsimp only
  rw [result_readTokens_failFast_eq_error, body_of_spelled hwords, stop_of_spelled hwords]

end Words

/-! ### Fillers as text -/

namespace Grammar

lemma Filler.spelled_token (line : Int) (x : Filler) : Spelled (x.token line) := by
  cases x with
  | name => exact ⟨.word, .word (mem_texts_word.2 ⟨_, [], rfl, by decide, by simp⟩)⟩
  | leftParen => exact ⟨.sign .leftParen, .sign .leftParen⟩
  | rightParen => exact ⟨.sign .rightParen, .sign .rightParen⟩
  | rightBrace => exact ⟨.sign .rightBrace, .sign .rightBrace⟩
  | semicolon => exact ⟨.sign .semicolon, .sign .semicolon⟩

/-- A filler with a blank after it is scanned on its line. -/
lemma Filler.scanFrom_text (line : Int) (x : Filler) (rest : Bytes) :
    scanFrom line (x.text ++ Bytes.ofAscii ' ' :: rest) =
      (scanFrom line rest).map (x.token line :: ·) := by
  have hparted : Parted (Bytes.ofAscii ' ' :: rest) := parted_cons (by decide) rest
  have hline : line + (x.text.count Bytes.newline : Nat) = line := by
    cases x <;> exact Int.add_zero line
  have hblank : scanFrom line (Bytes.ofAscii ' ' :: rest) = scanFrom line rest :=
    scanFrom_gap (by decide) line rest
  obtain ⟨p, hp⟩ := x.spelled_token line
  have hdenotes : p.Denotes x.text x.kind .nil := hp
  have hcomment := not_startsComment_of_clear hdenotes hparted.clear
  obtain ⟨b, w, hw⟩ := List.exists_cons_of_ne_nil (ne_nil_of_mem_texts hdenotes.mem)
  rw [hw] at hdenotes hcomment hline
  have hstep :=
    scanFrom_token (piece_of_denotes hdenotes (ends_of_parted p hparted) hcomment) line
  rw [hline, hblank] at hstep
  rw [hw, List.cons_append, hstep, Filler.token, hw]

/-- The text of fillers, each with a blank after it. -/
def fillText (fillers : List Filler) : Bytes :=
  fillers.flatMap fun x => x.text ++ [Bytes.ofAscii ' ']

lemma scanFrom_fillText (line : Int) (fillers : List Filler) :
    scanFrom line (fillText fillers) = .ok (fill line fillers ++ [Token.atEnd line]) := by
  induction fillers with
  | nil =>
    rw [fillText, List.flatMap_nil, scanFrom]
    rfl
  | cons x fillers ih =>
    have hsplit : fillText (x :: fillers) =
        x.text ++ Bytes.ofAscii ' ' :: fillText fillers := by
      simp [fillText]
    rw [hsplit, x.scanFrom_text, ih]
    rfl

end Grammar

/-! ### Scripts and their continuations -/

/-- The words of a script stay when lines are added to it. -/
lemma exists_words_of_scan {source : Bytes} {tokens : List Token} (h : scan source = .ok tokens) :
    ∃ words last, tokens = words ++ [Token.atEnd last] ∧ (∀ t ∈ words, Spelled t) ∧
      ∀ r, scan (source ++ Bytes.newline :: r) = (scanFrom (last + 1) r).map (words ++ ·) := by
  obtain ⟨words, last, rfl, hcarries⟩ := carries_of_tokenises (tokenises_iff.2 h)
  obtain ⟨words', last', htokens, hwords⟩ := exists_spelled_of_scan h
  obtain ⟨rfl, -⟩ := List.append_inj' htokens rfl
  exact ⟨words, last, rfl, hwords, hcarries⟩

/-- The beginning of a program is a program, or is rejected as incomplete. -/
lemma parse_front {source r : Bytes} {p : Program}
    (h : parse .failFast (source ++ Bytes.newline :: r) = .ok p) :
    (∃ q, parse .failFast source = .ok q) ∨
      ∃ e, parse .failFast source = .error e ∧ e.isIncomplete = true := by
  obtain ⟨tokens, hlong, D, hD, hsettled, -⟩ := parse_eq_ok_iff.1 h
  cases hscan : scan source with
  | error e =>
    rcases carries_of_tokenises (tokenises_iff.2 hscan) with hopen | hfails
    · refine .inr ⟨.lexical e, ?_, hopen⟩
      unfold parse readSource
      rw [hscan]
    · rw [scan, hfails] at hlong
      cases hlong
  | ok tokens' =>
    obtain ⟨words, last, rfl, hwords, hcarries⟩ := exists_words_of_scan hscan
    have hfront : ∃ B : StmtTree .declarations, ∃ after, B.Settled after ∧ words <+: B.tokens := by
      cases D with
      | program B stop =>
        rw [hcarries] at hlong
        cases hrest : scanFrom (last + 1) r with
        | error e =>
          rw [hrest] at hlong
          cases hlong
        | ok others =>
          obtain ⟨more, last', rfl, -⟩ := exists_eq_append_atEnd (tokenises_iff.2 hrest) rfl
          rw [hrest] at hlong
          have htokens : words ++ (more ++ [Token.atEnd last']) = tokens := Except.ok.inj hlong
          have hsplit : B.tokens ++ [stop.1] = (words ++ more) ++ [Token.atEnd last'] := by
            rw [List.append_assoc, htokens, ← hD]
            rfl
          exact ⟨B, _, hsettled, more, (List.append_inj' hsplit rfl).1.symm⟩
    obtain ⟨B, after, hB, hprefix⟩ := hfront
    rcases spent_program hB hprefix with ⟨q, hq⟩ | ⟨f, hf, hblamed⟩
    · exact .inl ⟨q, (parse_eq_ok_iff_program hscan hwords).2 hq⟩
    · refine .inr ⟨_, (parse_eq_error_iff_program hscan hwords).2 ⟨f, hf, rfl⟩, ?_⟩
      simp [Rejection.isIncomplete, SyntaxError.isAtEnd, SyntaxError.ofFailure, hblamed,
        Token.atEnd]

/-- A reading that gets through the words of a script finds a program, or a target that cannot be
assigned to. -/
lemma parse_of_passes {source : Bytes} {words : List Token} {last : Int}
    (hscan : scan source = .ok (words ++ [Token.atEnd last])) (hwords : ∀ t ∈ words, Spelled t)
    (h : Passes (program .failFast words).result []) :
    (∃ p, parse .failFast source = .ok p) ∨
      ∃ e, parse .failFast source = .error (.first e) ∧ e.cause = .invalidTarget := by
  rcases h with ⟨p, hp⟩ | ⟨f, hf, hcause⟩
  · exact .inl ⟨p, (parse_eq_ok_iff_program hscan hwords).2 hp⟩
  · exact .inr ⟨_, (parse_eq_error_iff_program hscan hwords).2 ⟨f, hf, rfl⟩, hcause⟩

/-- A script that ends too early can be continued. -/
lemma exists_continuation {source : Bytes} {e : SyntaxError}
    (h : parse .failFast source = .error (.first e)) (hend : e.isAtEnd = true) :
    ∃ r, (∃ p, parse .failFast (source ++ Bytes.newline :: r) = .ok p) ∨
      ∃ e', parse .failFast (source ++ Bytes.newline :: r) = .error (.first e') ∧
        e'.cause = .invalidTarget := by
  cases hscan : scan source with
  | error e' =>
    unfold parse readSource at h
    rw [hscan] at h
    cases h
  | ok tokens =>
    obtain ⟨words, last, rfl, hwords, hcarries⟩ := exists_words_of_scan hscan
    obtain ⟨f, hf, he⟩ := (parse_eq_error_iff_program hscan hwords).1 h
    obtain rfl := Rejection.first.inj he
    -- A wrong target stays wrong with nothing added; at the end of the words, fillers are added.
    have hfillers : ∃ fillers,
        Passes (program .failFast (words ++ fill (last + 1) fillers)).result [] := by
      rcases blamed_eq_nil_of_isAtEnd hwords hf hend with hcause | hblamed
      · refine ⟨[], .inr ⟨f, ?_, hcause⟩⟩
        rwa [fill, List.map_nil, List.append_nil]
      · exact exists_fillers_of_spent (last + 1) (.inr ⟨f, hf, hblamed⟩)
    obtain ⟨fillers, hpasses⟩ := hfillers
    have hlong : scan (source ++ Bytes.newline :: fillText fillers) =
        .ok ((words ++ fill (last + 1) fillers) ++ [Token.atEnd (last + 1)]) := by
      rw [hcarries, scanFrom_fillText, List.append_assoc]
      rfl
    have hspelled : ∀ t ∈ words ++ fill (last + 1) fillers, Spelled t := by
      intro t ht
      rcases List.mem_append.1 ht with ht | ht
      · exact hwords t ht
      · obtain ⟨x, -, rfl⟩ := List.mem_map.1 ht
        exact x.spelled_token (last + 1)
    exact ⟨fillText fillers, parse_of_passes hlong hspelled hpasses⟩

/-- Reading line by line, a script is told to be incomplete just when it should be.  If it can be
continued on a new line so as to be a program, then it is one already or is rejected as incomplete.
If it is rejected as incomplete by the grammar, then it can be continued on a new line so as to be a
program, or so that all that is wrong is a target that cannot be assigned to. -/
theorem isIncomplete_tells_continuable (source : Bytes) :
    (∀ r p, parse .failFast (source ++ Bytes.newline :: r) = .ok p →
      (∃ q, parse .failFast source = .ok q) ∨
        ∃ e, parse .failFast source = .error e ∧ e.isIncomplete = true) ∧
    ∀ e, parse .failFast source = .error (.first e) → (Rejection.first e).isIncomplete = true →
      ∃ r, (∃ p, parse .failFast (source ++ Bytes.newline :: r) = .ok p) ∨
        ∃ e', parse .failFast (source ++ Bytes.newline :: r) = .error (.first e') ∧
          e'.cause = .invalidTarget :=
  ⟨fun _ _ h => parse_front h, fun _ h hend => exists_continuation h hend⟩

end LoxScript
