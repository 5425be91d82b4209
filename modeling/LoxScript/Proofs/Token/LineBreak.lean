import LoxScript.Proofs.Token.Lines
import LoxScript.Proofs.Token.LongestMatch

/-!
# Scanning over a line break

Nothing but a string reaches over the end of its line.  So what is scanned before a line break does
not depend on what follows the break, unless a string is still open there: the tokens of a text are
found again when further lines are added, with the tokens of these lines after them, and an error
that is no open string stays the error it is.
-/

namespace LoxScript

/-- A character that the end of a text cuts off is cut off by a line break as well. -/
lemma Glyph.front?_append_newline (a : UInt8) (rest r : Bytes) :
    front? (a :: (rest ++ Bytes.newline :: r)) = front? (a :: rest) := by
  have hnewline : isContinuation Bytes.newline = false := by decide
  unfold front?
  -- At most three bytes after the first one are looked at.
  rcases rest with _ | ⟨b, _ | ⟨c, _ | ⟨d, rest⟩⟩⟩
  · rcases r with _ | ⟨x, _ | ⟨y, r⟩⟩ <;> simp [hnewline]
  · rcases r with _ | ⟨x, r⟩ <;> simp [hnewline]
  · simp [hnewline]
  · rfl

namespace Scan

/-- A text at the front of a longer one ends before a byte that it does not have. -/
lemma prefix_of_prefix_append_cons {w a b : Bytes} {x : UInt8} (h : w <+: a ++ x :: b)
    (hx : x ∉ w) : w <+: a := by
  rcases Nat.le_total w.length a.length with hle | hle
  · exact List.prefix_of_prefix_length_le h (List.prefix_append _ _) hle
  · obtain ⟨u, rfl⟩ := List.prefix_of_prefix_length_le (List.prefix_append a (x :: b)) h hle
    rw [List.prefix_append_right_inj] at h
    cases u with
    | nil => rw [List.append_nil]
    | cons y u =>
      obtain ⟨rfl, -⟩ := List.cons_prefix_cons.1 h
      exact absurd (List.mem_append_right a List.mem_cons_self) hx

/-- No sign has a line break in it. -/
lemma newline_notMem_text (s : Sign) : Bytes.newline ∉ s.text := by
  cases s <;> decide

lemma extent_append_newline {rest : Bytes} (h : Numeral.extent rest = 0) (r : Bytes) :
    Numeral.extent (rest ++ Bytes.newline :: r) = 0 := by
  have hnewline : Bytes.isDigit Bytes.newline = false := by decide
  have hpoint : Bytes.newline ≠ Numeral.point := by decide
  by_contra hlonger
  obtain ⟨c, tail, hc, htext | htext⟩ := Numeral.extent_ne_zero hlonger
  · cases rest with
    | nil =>
      obtain ⟨rfl, -⟩ := List.cons.inj htext
      rw [hnewline] at hc
      cases hc
    | cons b rest =>
      obtain ⟨rfl, -⟩ := List.cons.inj htext
      simp [Numeral.extent, hc] at h
  · cases rest with
    | nil => exact hpoint (List.cons.inj htext).1
    | cons b rest =>
      obtain ⟨rfl, hrest⟩ := List.cons.inj htext
      cases rest with
      | nil =>
        obtain ⟨rfl, -⟩ := List.cons.inj hrest
        rw [hnewline] at hc
        cases hc
      | cons d rest =>
        obtain ⟨rfl, -⟩ := List.cons.inj hrest
        have hdigit : Bytes.isDigit Numeral.point = false := by decide
        simp [Numeral.extent, hdigit, hc] at h

/-- A line break does not make a token longer. -/
lemma Pattern.Ends.append_newline {p : Pattern} {rest : Bytes} (h : p.Ends rest) (r : Bytes) :
    p.Ends (rest ++ Bytes.newline :: r) := by
  cases p with
  | sign s =>
    intro s' hs'
    rw [← List.append_assoc] at hs'
    exact h s' (prefix_of_prefix_append_cons hs' (newline_notMem_text s'))
  | word =>
    intro c hc
    cases rest with
    | nil =>
      obtain rfl : Bytes.newline = c := Option.some.inj hc
      decide
    | cons d rest => exact h c hc
  | numeral => exact extent_append_newline h r
  | string => trivial

lemma not_startsComment_append_newline {text : Bytes} (h : ¬ StartsComment text) (r : Bytes) :
    ¬ StartsComment (text ++ Bytes.newline :: r) := by
  intro hcomment
  exact h (prefix_of_prefix_append_cons hcomment (by decide))

/-- The first byte of a token other than a string is a token of its own. -/
lemma exists_head_mem_texts {p : Pattern} {b : UInt8} {w : Bytes} (h : b :: w ∈ p.texts)
    (hquote : b ≠ quoteMark) : ∃ q : Pattern, [b] ∈ q.texts := by
  cases p with
  | sign s =>
    have htext : s.text = b :: w := h.symm
    have hsome : (Sign.ofText? (s.text.take 1)).isSome = true := by cases s <;> decide
    obtain ⟨s', hs'⟩ := Option.isSome_iff_exists.1 hsome
    rw [htext] at hs'
    exact ⟨.sign s', (Sign.text_of_ofText? hs').symm⟩
  | word =>
    obtain ⟨c, u, hcons, hc, -⟩ := mem_texts_word.1 h
    obtain ⟨rfl, -⟩ := List.cons.inj hcons
    exact ⟨.word, mem_texts_word.2 ⟨b, [], rfl, hc, by simp⟩⟩
  | numeral =>
    obtain ⟨d, hd, u, -, hcons⟩ := Numeral.mem_texts_numeral.1 h
    obtain ⟨hne, hdigits⟩ := mem_digits.1 hd
    obtain ⟨c, d, rfl⟩ := List.exists_cons_of_ne_nil hne
    obtain ⟨rfl, -⟩ := List.cons.inj hcons
    have hdigit := Numeral.singleton_mem_digits (hdigits b List.mem_cons_self)
    exact ⟨.numeral, Numeral.mem_texts_numeral.2
      ⟨[b], hdigit, [], Language.nil_mem_kstar _, rfl⟩⟩
  | string =>
    obtain ⟨body, -, hcons⟩ := mem_texts_string.1 h
    exact absurd (List.cons.inj hcons).1 hquote

/-- Where nothing fits a pattern, nothing does whatever comes after the first byte, unless that byte
is a quote. -/
lemma Stuck.of_cons {b : UInt8} {rest rest' : Bytes} (h : Stuck (b :: rest))
    (hquote : b ≠ quoteMark) : Stuck (b :: rest') := by
  intro p lexeme hmem hfront
  obtain ⟨c, w, rfl⟩ := List.exists_cons_of_ne_nil (ne_nil_of_mem_texts hmem)
  obtain ⟨rfl, -⟩ := List.cons_prefix_cons.1 hfront
  obtain ⟨q, hq⟩ := exists_head_mem_texts hmem hquote
  exact h q [c] hq ⟨rest, rfl⟩

lemma Bare.append_newline {b : UInt8} {rest : Bytes} (h : Bare (b :: rest)) (r : Bytes) :
    Bare (b :: (rest ++ Bytes.newline :: r)) :=
  ⟨fun c hc => h.gap c hc, not_startsComment_append_newline h.comment r⟩

/-! ### Lines that are added -/

/-- What becomes of a scan when lines are added after the text.  The tokens of the text stay, and
the added lines are scanned on their own; an error other than an open string stays. -/
def Carries (line : Int) (text : Bytes) : Except LexError (List Token) → Prop
  | .ok tokens => ∃ words last, tokens = words ++ [Token.atEnd last] ∧
      ∀ r, scanFrom line (text ++ Bytes.newline :: r) = (scanFrom (last + 1) r).map (words ++ ·)
  | .error e => e.isUnterminated = true ∨
      ∀ r, scanFrom line (text ++ Bytes.newline :: r) = .error e

/-- A piece without a token is dropped from the longer text as well. -/
lemma Carries.skip {line line' : Int} {text rest : Bytes} {result : Except LexError (List Token)}
    (hstep : ∀ r, scanFrom line (text ++ Bytes.newline :: r) =
      scanFrom line' (rest ++ Bytes.newline :: r))
    (h : Carries line' rest result) : Carries line text result := by
  cases result with
  | ok tokens =>
    obtain ⟨words, last, htokens, hscan⟩ := h
    exact ⟨words, last, htokens, fun r => (hstep r).trans (hscan r)⟩
  | error e =>
    exact h.imp_right fun hscan r => (hstep r).trans (hscan r)

/-- A token comes first in the longer text as well. -/
lemma Carries.token {line line' : Int} {text rest : Bytes} {t : Token}
    {result : Except LexError (List Token)}
    (hstep : ∀ r, scanFrom line (text ++ Bytes.newline :: r) =
      (scanFrom line' (rest ++ Bytes.newline :: r)).map (t :: ·))
    (h : Carries line' rest result) : Carries line text (result.map (t :: ·)) := by
  cases result with
  | ok tokens =>
    obtain ⟨words, last, rfl, hscan⟩ := h
    refine ⟨t :: words, last, rfl, fun r => ?_⟩
    rw [hstep, hscan]
    cases scanFrom (last + 1) r <;> rfl
  | error e =>
    refine h.imp_right fun hscan r => ?_
    rw [hstep, hscan]
    rfl

/-- An error at the first piece of the longer text. -/
lemma carries_of_piece_error {line : Int} {b : UInt8} {rest : Bytes} {cause : LexError.Cause}
    (h : ∀ r, piece b (rest ++ Bytes.newline :: r) = .error cause) :
    Carries line (b :: rest) (.error ⟨line, cause⟩) :=
  .inr fun r => scanFrom_error (h r) line

/-- Under each rule, the longer text is scanned like the shorter one. -/
lemma carries_of_tokenises {line : Int} {text : Bytes} {result : Except LexError (List Token)}
    (h : Tokenises line text result) : Carries line text result := by
  induction h with
  | done line =>
    refine ⟨[], line, rfl, fun r => ?_⟩
    have hstep : scanFrom line (Bytes.newline :: r) = scanFrom (line + 1) r :=
      scanFrom_gap (by decide) line r
    rw [List.nil_append, hstep]
    cases scanFrom (line + 1) r <;> rfl
  | @gap line b rest result hb _ ih => exact ih.skip fun r => scanFrom_gap hb line _
  | @comment line body rest result hbody hrest _ ih =>
    refine ih.skip fun r => ?_
    have hends : rest ++ Bytes.newline :: r = [] ∨
        [Bytes.newline] <+: rest ++ Bytes.newline :: r := by
      rcases hrest with rfl | ⟨tail, rfl⟩
      · exact .inr ⟨r, rfl⟩
      · exact .inr ⟨tail ++ Bytes.newline :: r, rfl⟩
    have hstep := scanFrom_comment hbody hends line
    simpa using hstep
  | @token line p lexeme rest kind literal result hbare hlongest hdenotes _ ih =>
    obtain ⟨b, w, rfl⟩ := List.exists_cons_of_ne_nil (ne_nil_of_mem_texts hlongest.mem)
    refine ih.token fun r => ?_
    have hcomment := not_startsComment_append_newline hbare.comment r
    rw [List.append_assoc] at hcomment
    have hpiece := piece_of_denotes hdenotes (hlongest.ends.append_newline r) hcomment
    rw [List.append_assoc, List.cons_append]
    exact scanFrom_token hpiece line
  | @badNumeral line lexeme text hbare hlongest hvalue =>
    obtain ⟨rest, rfl⟩ := hlongest.front
    obtain ⟨b, w, rfl⟩ := List.exists_cons_of_ne_nil (ne_nil_of_mem_texts hlongest.mem)
    refine carries_of_piece_error fun r => ?_
    have hpiece := piece_numeral hlongest.mem (hlongest.ends.append_newline r)
    rw [hvalue, ← List.append_assoc] at hpiece
    exact hpiece
  | unterminated => exact .inl rfl
  | @illegal line text hne hquote hbare hstuck =>
    obtain ⟨b, rest, rfl⟩ := List.exists_cons_of_ne_nil hne
    have hb : b ≠ quoteMark := fun heq => hquote (by rw [heq]; rfl)
    refine carries_of_piece_error fun r => ?_
    rw [piece_of_stuck (hbare.append_newline r) (hstuck.of_cons hb), if_neg hb,
      Glyph.front?_append_newline]

/-- Scanning is compositional at line breaks.  When the first text has tokens, these come first in
the longer text, without their end of input, and then come the tokens of the second text, or its
error, moved down by the line breaks before it.  When the first text has an error other than an open
string, the longer text has the very same error. -/
theorem scan_composes_at_newline (s r : Bytes) :
    match scan s with
    | .ok tokens =>
      ∃ words, tokens = words ++ [Token.atEnd (1 + s.count Bytes.newline)] ∧
        scan (s ++ Bytes.newline :: r) =
          (relocateScan (· + (1 + s.count Bytes.newline)) (scan r)).map (words ++ ·)
    | .error e => e.isUnterminated = true ∨ scan (s ++ Bytes.newline :: r) = .error e := by
  cases hscan : scan s with
  | error e => exact (carries_of_tokenises (tokenises_iff.2 hscan)).imp_right fun h => h r
  | ok tokens =>
    obtain ⟨words, last, rfl, hcarries⟩ := carries_of_tokenises (tokenises_iff.2 hscan)
    have hlast := getLast?_scanFrom _ hscan
    rw [List.getLast?_concat, Option.some.injEq] at hlast
    have hline : last = 1 + s.count Bytes.newline := congrArg Token.line hlast
    refine ⟨words, by rw [hline], ?_⟩
    have hlater : last + 1 = 1 + (1 + s.count Bytes.newline) := by omega
    rw [scan, hcarries, hlater, scanFrom_add]
    rfl

end Scan

end LoxScript
