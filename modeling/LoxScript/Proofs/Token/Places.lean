import LoxScript.Proofs.Token.LongestMatch

/-!
# Where tokens stand

A token knows its line but not its place in the script.  Here the places are found again: a text is
passed from the front, over white space, comments and the longest tokens, and each token is noted
with all that stands before it.  The line of a token is then the number of line breaks before it,
and one more, wherever these breaks stand: in white space, after comments, or in strings, also after
a backslash.  The same holds of the end of input, and of the place at which a scan fails.
-/

namespace LoxScript.Scan

/-! ### Passing a text -/

/-- Behind `before`, where `text` is left, the words come one after the other, and after them `rest`
is left.  Each word is given with all that stands before it.  No line is looked at. -/
inductive Passes : Bytes → Bytes → List (Bytes × Token) → Bytes → Prop
  /-- Nothing is passed. -/
  | here (before text : Bytes) : Passes before text [] text
  /-- White space is passed. -/
  | gap {before text rest : Bytes} {b : UInt8} {words : List (Bytes × Token)} :
      isGap b = true → Passes (before ++ [b]) text words rest →
        Passes before ([b] ++ text) words rest
  /-- A comment is passed, but not the line break that ends it. -/
  | comment {before body text rest : Bytes} {words : List (Bytes × Token)} :
      Bytes.newline ∉ body → text = [] ∨ [Bytes.newline] <+: text →
        Passes (before ++ slash :: slash :: body) text words rest →
          Passes before (slash :: slash :: body ++ text) words rest
  /-- The longest text that fits a pattern is passed and noted. -/
  | word {before text rest : Bytes} {p : Pattern} {t : Token} {words : List (Bytes × Token)} :
      Bare (t.lexeme ++ text) → Longest p t.lexeme (t.lexeme ++ text) →
        p.Denotes t.lexeme t.kind t.literal → Passes (before ++ t.lexeme) text words rest →
          Passes before (t.lexeme ++ text) ((before, t) :: words) rest

/-- The text starts with what the cause of an error speaks of: a quote that is never closed, a
numeral that is no number, or a character that starts no token. -/
def Offends (text : Bytes) : LexError.Cause → Prop
  | .unterminated => text.head? = some quoteMark ∧ Stuck text
  | .badNumeral lexeme => Bare text ∧ Longest .numeral lexeme text ∧ Numeral.value? lexeme = none
  | .illegal c => text ≠ [] ∧ text.head? ≠ some quoteMark ∧ Bare text ∧ Stuck text ∧
      c = (Glyph.front? text).getD Glyph.replacement

/-- Every word stands where it is noted. -/
lemma Passes.noted {before text rest : Bytes} {words : List (Bytes × Token)}
    (h : Passes before text words rest) : ∀ w ∈ words, w.1 ++ w.2.lexeme <+: before ++ text := by
  induction h with
  | here => exact List.forall_mem_nil _
  | gap _ _ ih | comment _ _ _ ih =>
    rw [← List.append_assoc]
    exact ih
  | word _ _ _ _ ih =>
    rw [← List.append_assoc]
    exact List.forall_mem_cons.2 ⟨List.prefix_append _ _, ih⟩

/-! ### Counting line breaks -/

/-- The number of the line that is reached after a text. -/
def lineAfter (before : Bytes) : Int :=
  1 + before.count Bytes.newline

lemma lineAfter_append (before text : Bytes) :
    lineAfter (before ++ text) = lineAfter before + text.count Bytes.newline := by
  rw [lineAfter, lineAfter, List.count_append, Int.natCast_add, Int.add_assoc]

/-- All lines in the result of a scan that has come behind `before`, where `text` is left, count the
line breaks that stand before. -/
def Counts (before text : Bytes) : Except LexError (List Token) → Prop
  | .ok tokens =>
    ∃ words, Passes before text words [] ∧
      tokens = words.map Prod.snd ++ [Token.atEnd (lineAfter (before ++ text))] ∧
        ∀ w ∈ words, w.2.line = lineAfter w.1
  | .error e =>
    ∃ words passed rest, text = passed ++ rest ∧ Passes before text words rest ∧
      Offends rest e.cause ∧ e.line = lineAfter (before ++ passed)

section Counts

variable {before text : Bytes} {result : Except LexError (List Token)}

/-- What is passed without a token leaves the count to what follows. -/
lemma Counts.skip (skipped : Bytes)
    (hpass : ∀ words rest, Passes (before ++ skipped) text words rest →
      Passes before (skipped ++ text) words rest)
    (h : Counts (before ++ skipped) text result) : Counts before (skipped ++ text) result := by
  cases result with
  | ok tokens =>
    obtain ⟨words, hwords, htokens, hlines⟩ := h
    rw [List.append_assoc] at htokens
    exact ⟨words, hpass words [] hwords, htokens, hlines⟩
  | error e =>
    obtain ⟨words, passed, rest, rfl, hwords, hoffends, hline⟩ := h
    rw [List.append_assoc] at hline
    refine ⟨words, skipped ++ passed, rest, ?_, hpass words rest hwords, hoffends, hline⟩
    rw [List.append_assoc]

/-- A token on the line that is reached comes before the tokens that follow. -/
lemma Counts.token {p : Pattern} {t : Token} (hbare : Bare (t.lexeme ++ text))
    (hlongest : Longest p t.lexeme (t.lexeme ++ text))
    (hdenotes : p.Denotes t.lexeme t.kind t.literal) (hline : t.line = lineAfter before)
    (h : Counts (before ++ t.lexeme) text result) :
    Counts before (t.lexeme ++ text) (result.map (t :: ·)) := by
  have hpass : ∀ words rest, Passes (before ++ t.lexeme) text words rest →
      Passes before (t.lexeme ++ text) ((before, t) :: words) rest :=
    fun words rest => Passes.word hbare hlongest hdenotes
  cases result with
  | ok tokens =>
    obtain ⟨words, hwords, rfl, hlines⟩ := h
    refine ⟨(before, t) :: words, hpass words [] hwords, ?_,
      List.forall_mem_cons.2 ⟨hline, hlines⟩⟩
    rw [List.append_assoc]
    rfl
  | error e =>
    obtain ⟨words, passed, rest, rfl, hwords, hoffends, hstop⟩ := h
    rw [List.append_assoc] at hstop
    refine ⟨_, t.lexeme ++ passed, rest, ?_, hpass words rest hwords, hoffends, hstop⟩
    rw [List.append_assoc]

/-- An error at the place that is reached. -/
lemma counts_error {cause : LexError.Cause} (h : Offends text cause) :
    Counts before text (.error ⟨lineAfter before, cause⟩) := by
  refine ⟨[], [], text, rfl, Passes.here before text, h, ?_⟩
  rw [List.append_nil]

end Counts

/-- Each rule of the scan keeps the count, whatever has been passed before. -/
lemma counts_of_tokenises {line : Int} {text : Bytes} {result : Except LexError (List Token)}
    (h : Tokenises line text result) :
    ∀ before, line = lineAfter before → Counts before text result := by
  induction h with
  | done line =>
    rintro before rfl
    refine ⟨[], Passes.here before [], ?_, List.forall_mem_nil _⟩
    rw [List.append_nil]
    rfl
  | @gap line b rest result hb _ ih =>
    rintro before rfl
    apply Counts.skip [b] fun words rest => Passes.gap hb
    apply ih
    rw [lineAfter_append]
    by_cases hnewline : b = Bytes.newline
    · rw [if_pos hnewline, hnewline]
      rfl
    · rw [if_neg hnewline, List.count_singleton, if_neg (by simpa using hnewline)]
      simp
  | @comment line body rest result hbody hrest _ ih =>
    rintro before rfl
    apply Counts.skip (slash :: slash :: body) fun words rest' =>
      Passes.comment hbody hrest
    apply ih
    have hnone : Bytes.newline ∉ slash :: slash :: body := by
      simp only [List.mem_cons, hbody, or_false, or_self]
      decide
    rw [lineAfter_append, List.count_eq_zero.2 hnone]
    simp
  | @token line p lexeme rest kind literal result hbare hlongest hdenotes _ ih =>
    rintro before rfl
    apply Counts.token (t := ⟨kind, lexeme, literal, lineAfter before⟩) hbare hlongest hdenotes rfl
    exact ih _ (lineAfter_append before lexeme).symm
  | badNumeral hbare hlongest hvalue =>
    rintro before rfl
    exact counts_error ⟨hbare, hlongest, hvalue⟩
  | unterminated hquote hstuck =>
    rintro before rfl
    exact counts_error ⟨hquote, hstuck⟩
  | illegal hne hquote hbare hstuck =>
    rintro before rfl
    exact counts_error ⟨hne, hquote, hbare, hstuck, rfl⟩

/-- Lines are exact.  Each token of a script stands on the line whose number is that of the line
breaks before its first byte, and one more; for a string that is the opening quote.  The end of
input counts all line breaks of the script.  When the scan fails, the line of the error counts the
line breaks before the first byte of what offends. -/
theorem scan_lines_count_breaks (source : Bytes) :
    match scan source with
    | .ok tokens =>
      ∃ words : List (Bytes × Token), Passes [] source words [] ∧
        tokens = words.map Prod.snd ++ [Token.atEnd (1 + source.count Bytes.newline)] ∧
          ∀ w ∈ words, w.1 ++ w.2.lexeme <+: source ∧ w.2.line = 1 + w.1.count Bytes.newline
    | .error e =>
      ∃ words before rest, source = before ++ rest ∧ Passes [] source words rest ∧
        Offends rest e.cause ∧ e.line = 1 + before.count Bytes.newline := by
  cases hscan : scan source with
  | ok tokens =>
    obtain ⟨words, hwords, htokens, hlines⟩ :=
      counts_of_tokenises (tokenises_iff.2 hscan) [] rfl
    exact ⟨words, hwords, htokens, fun w hw => ⟨hwords.noted w hw, hlines w hw⟩⟩
  | error e => exact counts_of_tokenises (tokenises_iff.2 hscan) [] rfl

end LoxScript.Scan
