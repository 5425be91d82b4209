import Mathlib.Data.Nat.Find
import LoxScript.Proofs.Token.Reach

/-!
# The scan takes the longest token

`Tokenises` says what the tokens of a script are, without saying how they are found: white space and
comments are dropped, and then the longest text at the front that fits a pattern is a token.  The
main result is that the scan computes just that, errors included.

One half follows the rules of `Tokenises` one by one: under each of them the scan cuts off the same
piece.  The other half needs nothing about the scan, only that at every place some rule applies.
-/

namespace LoxScript.Scan

/-! ### The rules -/

/-- The text starts with neither white space nor a comment. -/
structure Bare (text : Bytes) : Prop where
  gap : ∀ b ∈ text.head?, isGap b = false
  comment : ¬ StartsComment text

/-- The lexeme stands at the front of the text and fits the pattern, and nothing longer there fits
any pattern. -/
structure Longest (p : Pattern) (lexeme text : Bytes) : Prop where
  mem : lexeme ∈ p.texts
  front : lexeme <+: text
  longest : ∀ q : Pattern, ∀ other ∈ q.texts, other <+: text → other.length ≤ lexeme.length

/-- Nothing at the front of the text fits a pattern. -/
def Stuck (text : Bytes) : Prop :=
  ∀ p : Pattern, ∀ lexeme ∈ p.texts, ¬ lexeme <+: text

/-- The tokens of a text whose first line has the given number, or why it has none. -/
inductive Tokenises : Int → Bytes → Except LexError (List Token) → Prop
  /-- The end of input is the last token. -/
  | done (line : Int) : Tokenises line [] (.ok [Token.atEnd line])
  /-- White space is dropped. -/
  | gap {line : Int} {b : UInt8} {rest : Bytes} {r : Except LexError (List Token)} :
      isGap b = true → Tokenises (if b = Bytes.newline then line + 1 else line) rest r →
        Tokenises line (b :: rest) r
  /-- A comment is dropped, but not the line break that ends it. -/
  | comment {line : Int} {body rest : Bytes} {r : Except LexError (List Token)} :
      Bytes.newline ∉ body → rest = [] ∨ [Bytes.newline] <+: rest → Tokenises line rest r →
        Tokenises line (slash :: slash :: (body ++ rest)) r
  /-- The longest text that fits a pattern is a token. -/
  | token {line : Int} {p : Pattern} {lexeme rest : Bytes} {kind : Kind} {literal : Literal}
      {r : Except LexError (List Token)} :
      Bare (lexeme ++ rest) → Longest p lexeme (lexeme ++ rest) → p.Denotes lexeme kind literal →
        Tokenises (line + lexeme.count Bytes.newline) rest r →
          Tokenises line (lexeme ++ rest) (r.map (⟨kind, lexeme, literal, line⟩ :: ·))
  /-- A numeral that is no number has no token. -/
  | badNumeral {line : Int} {lexeme text : Bytes} :
      Bare text → Longest .numeral lexeme text → Numeral.value? lexeme = none →
        Tokenises line text (.error ⟨line, .badNumeral lexeme⟩)
  /-- A quote that starts no string is that of a string without an end. -/
  | unterminated {line : Int} {text : Bytes} :
      text.head? = some quoteMark → Stuck text →
        Tokenises line text (.error ⟨line, .unterminated⟩)
  /-- Any other character that starts no token is illegal. -/
  | illegal {line : Int} {text : Bytes} :
      text ≠ [] → text.head? ≠ some quoteMark → Bare text → Stuck text →
        Tokenises line text
          (.error ⟨line, .illegal ((Glyph.front? text).getD Glyph.replacement)⟩)

/-! ### What ends a token -/

lemma ne_nil_of_mem_texts {p : Pattern} {w : Bytes} (h : w ∈ p.texts) : w ≠ [] := by
  cases p with
  | sign s =>
    rw [show w = s.text from h]
    cases s <;> decide
  | word =>
    obtain ⟨b, u, rfl, -, -⟩ := mem_texts_word.1 h
    exact List.cons_ne_nil _ _
  | numeral =>
    obtain ⟨d, hd, u, -, rfl⟩ := Numeral.mem_texts_numeral.1 h
    simp [(mem_digits.1 hd).1]
  | string =>
    obtain ⟨body, -, rfl⟩ := mem_texts_string.1 h
    exact List.cons_ne_nil _ _

/-- If the lexeme and more of the text fit a pattern, the lexeme was not the longest. -/
lemma Longest.not_mem_of_append {p : Pattern} {lexeme rest : Bytes}
    (h : Longest p lexeme (lexeme ++ rest)) (q : Pattern) {more tail : Bytes}
    (hmore : more ≠ []) (hrest : rest = more ++ tail) : lexeme ++ more ∉ q.texts := by
  intro hmem
  have hfront : lexeme ++ more <+: lexeme ++ rest := by
    rw [hrest, ← List.append_assoc]
    exact List.prefix_append _ _
  have hle := h.longest q _ hmem hfront
  have hpos := List.length_pos_iff.2 hmore
  rw [List.length_append] at hle
  omega

/-- What follows the longest lexeme does not make it longer. -/
lemma Longest.ends {p : Pattern} {lexeme rest : Bytes} (h : Longest p lexeme (lexeme ++ rest)) :
    p.Ends rest := by
  cases p with
  | sign s =>
    obtain rfl : lexeme = s.text := h.mem
    intro s' hs'
    exact h.longest (.sign s') s'.text rfl hs'
  | word =>
    intro c hc
    by_contra hword
    obtain ⟨tail, rfl⟩ := List.head?_eq_some_iff.1 hc
    obtain ⟨b, u, rfl, hb, hu⟩ := mem_texts_word.1 h.mem
    refine h.not_mem_of_append .word (List.cons_ne_nil c []) rfl (mem_texts_word.2 ?_)
    refine ⟨b, u ++ [c], rfl, hb, fun d hd => ?_⟩
    rcases List.mem_append.1 hd with hd | hd
    · exact hu d hd
    · rw [List.mem_singleton.1 hd]
      simpa using hword
  | numeral =>
    by_contra hextent
    obtain ⟨c, tail, hc, rfl | rfl⟩ := Numeral.extent_ne_zero hextent
    · exact h.not_mem_of_append .numeral (List.cons_ne_nil c []) rfl
        (Numeral.append_digit_mem_texts h.mem hc)
    · exact h.not_mem_of_append .numeral (List.cons_ne_nil Numeral.point [c]) rfl
        (Numeral.append_point_mem_texts h.mem hc)
  | string => trivial

/-! ### One step of the scan -/

/-- Blanks and comments leave no token. -/
lemma scanFrom_skip {b : UInt8} {w rest : Bytes}
    (h : piece b (w ++ rest) = .ok ⟨w.length, none⟩) (line : Int) :
    scanFrom line (b :: (w ++ rest)) = scanFrom (line + (b :: w).count Bytes.newline) rest := by
  rw [scanFrom, h]
  simp only [List.take_left', List.drop_left']
  cases scanFrom (line + (b :: w).count Bytes.newline) rest <;> rfl

/-- A token comes before the tokens of the rest. -/
lemma scanFrom_token {b : UInt8} {w rest : Bytes} {kind : Kind} {literal : Literal}
    (h : piece b (w ++ rest) = .ok ⟨w.length, some (kind, literal)⟩) (line : Int) :
    scanFrom line (b :: (w ++ rest)) =
      (scanFrom (line + (b :: w).count Bytes.newline) rest).map
        (⟨kind, b :: w, literal, line⟩ :: ·) := by
  rw [scanFrom, h]
  simp only [List.take_left', List.drop_left']
  cases scanFrom (line + (b :: w).count Bytes.newline) rest <;> rfl

lemma scanFrom_error {b : UInt8} {rest : Bytes} {cause : LexError.Cause}
    (h : piece b rest = .error cause) (line : Int) :
    scanFrom line (b :: rest) = .error ⟨line, cause⟩ := by
  rw [scanFrom, h]

lemma scanFrom_gap {b : UInt8} (h : isGap b = true) (line : Int) (rest : Bytes) :
    scanFrom line (b :: rest) = scanFrom (if b = Bytes.newline then line + 1 else line) rest := by
  have hstep := scanFrom_skip (w := []) (piece_gap h rest) line
  have hline : line + ([b].count Bytes.newline : Nat) =
      if b = Bytes.newline then line + 1 else line := by
    by_cases hnewline : b = Bytes.newline
    · simp [hnewline]
    · simp [hnewline]
  rw [hline] at hstep
  exact hstep

lemma scanFrom_comment {body rest : Bytes} (hbody : Bytes.newline ∉ body)
    (hrest : rest = [] ∨ [Bytes.newline] <+: rest) (line : Int) :
    scanFrom line (slash :: slash :: (body ++ rest)) = scanFrom line rest := by
  have hstep := scanFrom_skip (w := slash :: body) (piece_comment hbody hrest) line
  have hcount : (slash :: slash :: body).count Bytes.newline = 0 := by
    refine List.count_eq_zero.2 fun hmem => ?_
    simp only [List.mem_cons, hbody, or_false, or_self] at hmem
    exact absurd hmem (by decide)
  rw [hcount] at hstep
  simpa using hstep

/-- A text of a pattern is cut off as one piece where nothing makes it longer. -/
lemma piece_of_denotes {p : Pattern} {b : UInt8} {w rest : Bytes} {kind : Kind} {literal : Literal}
    (h : p.Denotes (b :: w) kind literal) (hends : p.Ends rest)
    (hcomment : ¬ StartsComment (b :: (w ++ rest))) :
    piece b (w ++ rest) = .ok ⟨w.length, some (kind, literal)⟩ := by
  generalize hlexeme : b :: w = lexeme at h
  cases h with
  | sign s => exact piece_sign hlexeme.symm hends hcomment
  | word hmem =>
    subst hlexeme
    obtain ⟨c, u, hcons, hc, hu⟩ := mem_texts_word.1 hmem
    obtain ⟨rfl, rfl⟩ := List.cons.inj hcons
    exact piece_word hc hu hends
  | numeral hmem hvalue =>
    subst hlexeme
    rw [piece_numeral hmem hends, hvalue]
  | @string body value hbody hvalue =>
    obtain ⟨rfl, rfl⟩ := List.cons.inj hlexeme
    rw [List.append_assoc, List.singleton_append, piece_string hbody,
      unescape_of_standsFor hvalue, List.length_append]
    rfl

/-- Where nothing fits a pattern, a byte other than a quote is illegal. -/
lemma piece_of_stuck {b : UInt8} {rest : Bytes} (hbare : Bare (b :: rest))
    (hstuck : Stuck (b :: rest)) :
    piece b rest = .error (if b = quoteMark then .unterminated
      else .illegal ((Glyph.front? (b :: rest)).getD Glyph.replacement)) := by
  have hgap : isGap b = false := hbare.gap b rfl
  have hcomment := mt startsComment_cons.2 hbare.comment
  by_cases hquote : b = quoteMark
  · subst hquote
    have hclosing : closing? rest = none := by
      by_contra hne
      obtain ⟨n, hn⟩ := Option.ne_none_iff_exists'.1 hne
      obtain ⟨body, hbody, tail, rfl⟩ := exists_body_of_closing? hn
      refine hstuck .string _ (mem_texts_string.2 ⟨body, hbody, rfl⟩) ⟨tail, ?_⟩
      simp
    simp [piece, hgap, hcomment, hclosing]
  · have hdigit : Bytes.isDigit b = false := by
      by_contra hne
      have hmem : [b] ∈ Pattern.numeral.texts := Numeral.mem_texts_numeral.2
        ⟨[b], Numeral.singleton_mem_digits (by simpa using hne), [], Language.nil_mem_kstar _, rfl⟩
      exact hstuck .numeral [b] hmem ⟨rest, rfl⟩
    have hletter : Bytes.isLetter b = false := by
      by_contra hne
      have hmem : [b] ∈ Pattern.word.texts :=
        mem_texts_word.2 ⟨b, [], rfl, by simpa using hne, by simp⟩
      exact hstuck .word [b] hmem ⟨rest, rfl⟩
    have hsign : Sign.front? (b :: rest) = none :=
      Sign.front?_eq_none fun s hs => hstuck (.sign s) s.text rfl hs
    simp [piece, hgap, hcomment, hquote, hdigit, hletter, hsign]

/-! ### The scan follows the rules -/

/-- Under each rule the scan finds what the rule says. -/
lemma scanFrom_of_tokenises {line : Int} {text : Bytes} {r : Except LexError (List Token)}
    (h : Tokenises line text r) : scanFrom line text = r := by
  induction h with
  | done line => rw [scanFrom]
  | @gap line b rest r hb _ ih => rw [scanFrom_gap hb, ih]
  | @comment line body rest r hbody hrest _ ih => rw [scanFrom_comment hbody hrest, ih]
  | @token line p lexeme rest kind literal r hbare hlongest hdenotes _ ih =>
    obtain ⟨b, w, rfl⟩ := List.exists_cons_of_ne_nil (ne_nil_of_mem_texts hlongest.mem)
    have hpiece := piece_of_denotes hdenotes hlongest.ends hbare.comment
    rw [List.cons_append, scanFrom_token hpiece, ih]
  | @badNumeral line lexeme text hbare hlongest hvalue =>
    obtain ⟨rest, rfl⟩ := hlongest.front
    obtain ⟨b, w, rfl⟩ := List.exists_cons_of_ne_nil (ne_nil_of_mem_texts hlongest.mem)
    have hpiece := piece_numeral hlongest.mem hlongest.ends
    rw [hvalue] at hpiece
    rw [List.cons_append, scanFrom_error hpiece]
  | @unterminated line text hquote hstuck =>
    obtain ⟨rest, rfl⟩ := List.head?_eq_some_iff.1 hquote
    have hbare : Bare (quoteMark :: rest) := by
      refine ⟨fun b hb => ?_, fun hcomment => ?_⟩
      · obtain rfl : quoteMark = b := Option.some.inj hb
        decide
      · exact absurd (startsComment_cons.1 hcomment).1 (by decide)
    rw [scanFrom_error (piece_of_stuck hbare hstuck), if_pos rfl]
  | @illegal line text hne hquote hbare hstuck =>
    obtain ⟨b, rest, rfl⟩ := List.exists_cons_of_ne_nil hne
    have hb : b ≠ quoteMark := fun heq => hquote (by rw [heq]; rfl)
    rw [scanFrom_error (piece_of_stuck hbare hstuck), if_neg hb]

/-! ### Some rule always applies -/

/-- Where something fits a pattern, there is a longest such text. -/
lemma exists_longest {text : Bytes} (h : ¬ Stuck text) : ∃ p lexeme, Longest p lexeme text := by
  classical
  let Fits : Nat → Prop := fun n =>
    ∃ p : Pattern, ∃ lexeme ∈ p.texts, lexeme <+: text ∧ lexeme.length = n
  have hfits : ∀ p : Pattern, ∀ lexeme ∈ p.texts, lexeme <+: text → Fits lexeme.length :=
    fun p lexeme hmem hfront => ⟨p, lexeme, hmem, hfront, rfl⟩
  obtain ⟨q, other, hother, hfront⟩ : ∃ p : Pattern, ∃ lexeme ∈ p.texts, lexeme <+: text := by
    simpa [Stuck] using h
  obtain ⟨p, lexeme, hmem, hprefix, hlength⟩ :=
    Nat.findGreatest_spec (P := Fits) hfront.length_le (hfits q other hother hfront)
  refine ⟨p, lexeme, hmem, hprefix, fun q' other' hother' hfront' => ?_⟩
  rw [hlength]
  exact Nat.le_findGreatest hfront'.length_le (hfits q' other' hother' hfront')

/-- A text of a pattern denotes a token, unless it is a numeral that is no number. -/
lemma exists_denotes {p : Pattern} {lexeme : Bytes} (h : lexeme ∈ p.texts) :
    (∃ kind literal, p.Denotes lexeme kind literal) ∨
      p = .numeral ∧ Numeral.value? lexeme = none := by
  cases p with
  | sign s =>
    obtain rfl : lexeme = s.text := h
    exact .inl ⟨_, _, .sign s⟩
  | word => exact .inl ⟨_, _, .word h⟩
  | numeral =>
    cases hvalue : Numeral.value? lexeme with
    | none => exact .inr ⟨rfl, rfl⟩
    | some x => exact .inl ⟨_, _, .numeral h hvalue⟩
  | string =>
    obtain ⟨body, hbody, rfl⟩ := mem_texts_string.1 h
    exact .inl ⟨_, _, .string hbody (standsFor_unescape hbody)⟩

/-- A comment is its body and what comes after it. -/
lemma exists_comment_split (text : Bytes) :
    ∃ body rest, text = body ++ rest ∧ Bytes.newline ∉ body ∧
      (rest = [] ∨ [Bytes.newline] <+: rest) := by
  refine ⟨text.takeWhile (· ≠ Bytes.newline), text.dropWhile (· ≠ Bytes.newline),
    List.takeWhile_append_dropWhile.symm, fun hmem => ?_, ?_⟩
  · have hne := List.mem_takeWhile_imp hmem
    simp at hne
  · cases hrest : text.dropWhile (· ≠ Bytes.newline) with
    | nil => exact .inl rfl
    | cons b rest =>
      have hb := List.head_dropWhile_not (· ≠ Bytes.newline) (l := text) (by rw [hrest]; simp)
      simp only [hrest, List.head_cons] at hb
      obtain rfl : b = Bytes.newline := by simpa using hb
      exact .inr ⟨rest, rfl⟩

/-- At a place where nothing can be dropped, there is a token or an error. -/
lemma exists_tokenises_of_bare {line : Int} {text : Bytes} (hbare : Bare text)
    (ih : ∀ line rest, rest.length < text.length → ∃ r, Tokenises line rest r) :
    ∃ r, Tokenises line text r := by
  by_cases hempty : text = []
  · subst hempty
    exact ⟨_, .done line⟩
  by_cases hstuck : Stuck text
  · by_cases hquote : text.head? = some quoteMark
    · exact ⟨_, .unterminated hquote hstuck⟩
    · exact ⟨_, .illegal hempty hquote hbare hstuck⟩
  obtain ⟨p, lexeme, hlongest⟩ := exists_longest hstuck
  rcases exists_denotes hlongest.mem with ⟨kind, literal, hdenotes⟩ | ⟨rfl, hvalue⟩
  · obtain ⟨rest, rfl⟩ := hlongest.front
    have hpos := List.length_pos_iff.2 (ne_nil_of_mem_texts hlongest.mem)
    have hshorter : rest.length < (lexeme ++ rest).length := by
      rw [List.length_append]
      omega
    obtain ⟨r, hr⟩ := ih (line + lexeme.count Bytes.newline) rest hshorter
    exact ⟨_, .token hbare hlongest hdenotes hr⟩
  · exact ⟨_, .badNumeral hbare hlongest hvalue⟩

/-- At any other place, white space or a comment is dropped. -/
lemma exists_tokenises_of_not_bare {line : Int} {text : Bytes} (hbare : ¬ Bare text)
    (ih : ∀ line rest, rest.length < text.length → ∃ r, Tokenises line rest r) :
    ∃ r, Tokenises line text r := by
  by_cases hcomment : StartsComment text
  · obtain ⟨tail, rfl⟩ := hcomment
    obtain ⟨body, rest, rfl, hbody, hrest⟩ := exists_comment_split tail
    have hshorter : rest.length < ([slash, slash] ++ (body ++ rest)).length := by
      simp only [List.length_append, List.length_cons]
      omega
    obtain ⟨r, hr⟩ := ih line rest hshorter
    have hcut : Tokenises line (slash :: slash :: (body ++ rest)) r := .comment hbody hrest hr
    exact ⟨r, hcut⟩
  · obtain ⟨b, hb, hgap⟩ : ∃ b ∈ text.head?, isGap b = true := by
      by_contra hnone
      refine hbare ⟨fun b hb => ?_, hcomment⟩
      by_contra hgap
      exact hnone ⟨b, hb, by simpa using hgap⟩
    obtain ⟨rest, rfl⟩ := List.head?_eq_some_iff.1 hb
    obtain ⟨r, hr⟩ := ih (if b = Bytes.newline then line + 1 else line) rest (Nat.lt_succ_self _)
    exact ⟨r, .gap hgap hr⟩

/-- Every text either has tokens or a reason not to have any. -/
lemma exists_tokenises (line : Int) (text : Bytes) : ∃ r, Tokenises line text r := by
  induction hn : text.length using Nat.strong_induction_on generalizing line text with
  | _ n ih =>
    subst hn
    have hshorter : ∀ line rest, rest.length < text.length → ∃ r, Tokenises line rest r :=
      fun line rest hlt => ih rest.length hlt line rest rfl
    by_cases hbare : Bare text
    · exact exists_tokenises_of_bare hbare hshorter
    · exact exists_tokenises_of_not_bare hbare hshorter

/-- The scan computes the tokens of a text, or why it has none. -/
lemma tokenises_iff {line : Int} {text : Bytes} {r : Except LexError (List Token)} :
    Tokenises line text r ↔ scanFrom line text = r := by
  refine ⟨scanFrom_of_tokenises, ?_⟩
  rintro rfl
  obtain ⟨r, hr⟩ := exists_tokenises line text
  rw [scanFrom_of_tokenises hr]
  exact hr

/-! ### The tokens that are found -/

/-- The text of the token fits a pattern and denotes the token. -/
def Spelled (t : Token) : Prop :=
  ∃ p : Pattern, p.Denotes t.lexeme t.kind t.literal

lemma Spelled.kind_ne_endOfInput {t : Token} (h : Spelled t) : t.kind ≠ .endOfInput := by
  obtain ⟨p, hp⟩ := h
  generalize t.lexeme = w, t.kind = kind, t.literal = literal at hp
  cases hp with
  | sign | numeral | string => exact nofun
  | word =>
    unfold Kind.ofWord
    split <;> exact nofun

/-- The end of input stands after the last token that is written in the text. -/
lemma exists_eq_append_atEnd {line : Int} {text : Bytes} {r : Except LexError (List Token)}
    (h : Tokenises line text r) {tokens : List Token} (hr : r = .ok tokens) :
    ∃ words last, tokens = words ++ [Token.atEnd last] ∧ ∀ t ∈ words, Spelled t := by
  induction h generalizing tokens with
  | done line =>
    cases hr
    exact ⟨[], line, rfl, by simp⟩
  | gap _ _ ih => exact ih hr
  | comment _ _ _ ih => exact ih hr
  | @token line p lexeme rest kind literal r _ _ hdenotes _ ih =>
    cases r with
    | error e => cases hr
    | ok others =>
      obtain ⟨words, last, rfl, hwords⟩ := ih rfl
      cases hr
      refine ⟨_ :: words, last, rfl, fun t ht => ?_⟩
      rcases List.mem_cons.1 ht with rfl | ht
      · exact ⟨p, hdenotes⟩
      · exact hwords t ht
  | badNumeral | unterminated | illegal => cases hr

/-- The tokens of a script are written in it, and the end of input follows them. -/
lemma exists_spelled_of_scan {source : Bytes} {tokens : List Token} (h : scan source = .ok tokens) :
    ∃ words last, tokens = words ++ [Token.atEnd last] ∧ ∀ t ∈ words, Spelled t :=
  exists_eq_append_atEnd (tokenises_iff.2 h) rfl

/-- The scan gives the tokens of a script by longest match, or the place and the reason why it has
none.  One end of input follows the tokens, and none stands among them.  A numeral with more than
one point is no number. -/
theorem scan_iff_longest_match (source : Bytes) :
    (∀ r, scan source = r ↔ Tokenises 1 source r) ∧
      (∀ tokens, scan source = .ok tokens →
        ∃ words last, tokens = words ++ [Token.atEnd last] ∧ ∀ t ∈ words, t.kind ≠ .endOfInput) ∧
          ∀ text ∈ Pattern.numeral.texts, 1 < text.count Numeral.point →
            Numeral.value? text = none := by
  refine ⟨fun r => tokenises_iff.symm, fun tokens htokens => ?_, fun text _ hpoints => ?_⟩
  · obtain ⟨words, last, hsplit, hwords⟩ := exists_spelled_of_scan htokens
    exact ⟨words, last, hsplit, fun t ht => (hwords t ht).kind_ne_endOfInput⟩
  · exact Numeral.value?_eq_none_of_points hpoints

end LoxScript.Scan
