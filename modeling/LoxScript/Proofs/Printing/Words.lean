import LoxScript.Proofs.Printing.Core
import LoxScript.Proofs.Token.LongestMatch

/-!
# Cutting off words

A token that was found in one text is found again in another, if what follows it there does not make
it longer.  `Cuts` says that a text is cut into given words, up to their lines, before a given rest,
and texts that are cut can be joined.  The words of a script are found again when they are set with
single blanks between them.
-/

namespace LoxScript.Scan

/-! ### Texts that end a word -/

/-- The text starts with no byte that could extend a sign or make it a comment. -/
def Clear (rest : Bytes) : Prop :=
  ∀ c ∈ rest.head?, c ≠ Bytes.ofAscii '=' ∧ c ≠ slash

/-- The bytes after which every word ends: a blank, a closing parenthesis and a semicolon. -/
def partings : Bytes :=
  [Bytes.ofAscii ' ', Bytes.ofAscii ')', Bytes.ofAscii ';']

/-- The text starts with a byte that ends every word. -/
def Parted (rest : Bytes) : Prop :=
  ∀ c ∈ rest.head?, c ∈ partings

lemma clear_nil : Clear [] := nofun

/-- The text has a first byte, and it could neither extend a sign nor make it a comment. -/
def Leads (text : Bytes) : Prop :=
  ∃ c rest, text = c :: rest ∧ c ≠ Bytes.ofAscii '=' ∧ c ≠ slash

lemma Leads.append {text : Bytes} (h : Leads text) (rest : Bytes) : Leads (text ++ rest) := by
  obtain ⟨c, tail, rfl, hc⟩ := h
  exact ⟨c, tail ++ rest, rfl, hc⟩

lemma Leads.clear {text : Bytes} (h : Leads text) : Clear text := by
  obtain ⟨c, tail, rfl, hc⟩ := h
  intro d hd
  obtain rfl : c = d := Option.some.inj hd
  exact hc

lemma parted_cons {c : UInt8} (h : c ∈ partings) (rest : Bytes) : Parted (c :: rest) := by
  intro d hd
  obtain rfl : c = d := Option.some.inj hd
  exact h

lemma parted_facts {c : UInt8} (h : c ∈ partings) :
    (c ≠ Bytes.ofAscii '=' ∧ c ≠ slash) ∧ isWordByte c = false ∧ c ≠ Numeral.point := by
  simp only [partings, List.mem_cons, List.not_mem_nil, or_false] at h
  rcases h with rfl | rfl | rfl <;> decide

lemma Parted.clear {rest : Bytes} (h : Parted rest) : Clear rest :=
  fun c hc => (parted_facts (h c hc)).1

/-- Only an equals sign makes a sign longer. -/
lemma ends_sign_of_clear (s : Sign) {rest : Bytes} (h : Clear rest) :
    (Pattern.sign s).Ends rest := by
  intro s' hs'
  by_contra hlonger
  have hone : s.text.length = 1 := by
    rcases s.length_text with hone | htwo
    · exact hone
    · rcases s'.length_text with hone' | htwo' <;> omega
  have htwo : s'.text.length = 2 := by
    rcases s'.length_text with hone' | htwo' <;> omega
  have hequal : s'.text[1]? = some (Bytes.ofAscii '=') := by
    revert htwo
    cases s' <;> decide
  obtain ⟨b, hb⟩ := List.length_eq_one_iff.1 hone
  obtain ⟨b', c, hbc⟩ := List.length_eq_two.1 htwo
  rw [hbc] at hequal hs'
  obtain rfl : c = Bytes.ofAscii '=' := Option.some.inj hequal
  rw [hb, List.singleton_append, List.cons_prefix_cons] at hs'
  obtain ⟨tail, rfl⟩ := hs'.2
  exact (h _ rfl).1 rfl

/-- A byte that ends every word ends the texts of every pattern. -/
lemma ends_of_parted (p : Pattern) {rest : Bytes} (h : Parted rest) : p.Ends rest := by
  cases p with
  | sign s => exact ends_sign_of_clear s h.clear
  | word => exact fun c hc => (parted_facts (h c hc)).2.1
  | numeral =>
    by_contra hextent
    obtain ⟨c, tail, hc, rfl | rfl⟩ := Numeral.extent_ne_zero hextent
    · have hword := (parted_facts (h c rfl)).2.1
      simp [isWordByte, hc] at hword
    · exact (parted_facts (h Numeral.point rfl)).2.2 rfl
  | string => trivial

/-! ### What spelled tokens look like -/

lemma Pattern.Denotes.mem {p : Pattern} {w : Bytes} {kind : Kind} {literal : Literal}
    (h : p.Denotes w kind literal) : w ∈ p.texts := by
  cases h with
  | sign s => rfl
  | word hmem => exact hmem
  | numeral hmem => exact hmem
  | string hbody => exact mem_texts_string.2 ⟨_, hbody, rfl⟩

/-- A word is a reserved word or a name. -/
lemma ofWord_ne_sign (w : Bytes) (s : Sign) : Kind.ofWord w ≠ .sign s := by
  unfold Kind.ofWord
  split <;> exact nofun

/-- A sign is written in one way. -/
lemma Pattern.Denotes.of_sign {p : Pattern} {w : Bytes} {s : Sign} {literal : Literal}
    (h : p.Denotes w (.sign s) literal) : p = .sign s ∧ w = s.text := by
  generalize hkind : Kind.sign s = kind at h
  cases h with
  | sign s' =>
    cases hkind
    exact ⟨rfl, rfl⟩
  | word => exact absurd hkind.symm (ofWord_ne_sign _ s)
  | numeral | string => cases hkind

/-- A reserved word is written in one way. -/
lemma Pattern.Denotes.of_keyword {p : Pattern} {w : Bytes} {k : Keyword} {literal : Literal}
    (h : p.Denotes w (.keyword k) literal) : w = k.text := by
  generalize hkind : Kind.keyword k = kind at h
  cases h with
  | word =>
    unfold Kind.ofWord at hkind
    split at hkind
    case h_1 k' hk' =>
      cases hkind
      have htext : k.text = w := by simpa using List.find?_some hk'
      exact htext.symm
    case h_2 => cases hkind
  | sign | numeral | string => cases hkind

/-- A token that is no sign starts with a letter, a digit or a quote. -/
lemma leads_of_denotes {p : Pattern} {w : Bytes} {kind : Kind} {literal : Literal}
    (h : p.Denotes w kind literal) (hkind : ∀ s, kind ≠ .sign s) : Leads w := by
  have hletter : ∀ {b}, Bytes.isLetter b = true → b ≠ Bytes.ofAscii '=' := by
    rintro b hb rfl
    exact absurd hb (by decide)
  have hdigit : ∀ {b}, Bytes.isDigit b = true → b ≠ Bytes.ofAscii '=' := by
    rintro b hb rfl
    exact absurd hb (by decide)
  cases h with
  | sign s => exact absurd rfl (hkind s)
  | word hmem =>
    obtain ⟨b, u, rfl, hb, -⟩ := mem_texts_word.1 hmem
    exact ⟨b, u, rfl, hletter hb, (letter_facts hb).2.1⟩
  | numeral hmem =>
    obtain ⟨d, hd, u, -, rfl⟩ := Numeral.mem_texts_numeral.1 hmem
    obtain ⟨hne, hdigits⟩ := mem_digits.1 hd
    obtain ⟨b, d, rfl⟩ := List.exists_cons_of_ne_nil hne
    have hb := hdigits b List.mem_cons_self
    exact ⟨b, d ++ u, rfl, hdigit hb, (digit_facts hb).2.1⟩
  | string => exact ⟨_, _, rfl, by decide⟩

/-- No token starts a comment, unless a slash follows it. -/
lemma not_startsComment_of_clear {p : Pattern} {w : Bytes} {kind : Kind} {literal : Literal}
    (h : p.Denotes w kind literal) {rest : Bytes} (hrest : Clear rest) :
    ¬ StartsComment (w ++ rest) := by
  intro hcomment
  by_cases hsign : ∃ s, kind = .sign s
  · obtain ⟨s, rfl⟩ := hsign
    obtain ⟨-, rfl⟩ := h.of_sign
    have hhead : rest.head? ≠ some slash := fun hslash => (hrest slash hslash).2 rfl
    rcases s.length_text with hone | htwo
    · obtain ⟨b, hb⟩ := List.length_eq_one_iff.1 hone
      rw [hb, List.singleton_append, startsComment_cons] at hcomment
      exact hhead hcomment.2
    · obtain ⟨b, c, hbc⟩ := List.length_eq_two.1 htwo
      have hne : s.text ≠ [slash, slash] := by cases s <;> decide
      rw [hbc, List.cons_append, startsComment_cons] at hcomment
      obtain ⟨rfl, hc⟩ := hcomment
      obtain rfl : c = slash := Option.some.inj hc
      exact hne hbc
  · have hclear := ((leads_of_denotes h fun s hs => hsign ⟨s, hs⟩).append rest).clear
    obtain ⟨tail, htail⟩ := hcomment
    rw [← htail] at hclear
    exact (hclear slash rfl).2 rfl

/-! ### Cutting off words -/

/-- Scanning the text gives the words, up to their lines, and goes on with the rest. -/
def Cuts (text : Bytes) (words : List Token) (rest : Bytes) : Prop :=
  ∀ line, ∃ line' ts, scanFrom line (text ++ rest) = (scanFrom line' rest).map (ts ++ ·) ∧
    ts.map Token.unplaced = words.map Token.unplaced

lemma map_nil_append (r : Except LexError (List Token)) : r.map ([] ++ ·) = r := by
  cases r <;> rfl

lemma cuts_nil (rest : Bytes) : Cuts [] [] rest := by
  intro line
  exact ⟨line, [], (map_nil_append _).symm, rfl⟩

/-- Texts are cut one after the other. -/
lemma Cuts.append {text text' rest : Bytes} {words words' : List Token}
    (h : Cuts text words (text' ++ rest)) (h' : Cuts text' words' rest) :
    Cuts (text ++ text') (words ++ words') rest := by
  intro line
  obtain ⟨line₁, ts, hts, hwords⟩ := h line
  obtain ⟨line₂, ts', hts', hwords'⟩ := h' line₁
  refine ⟨line₂, ts ++ ts', ?_, ?_⟩
  · rw [List.append_assoc, hts, hts']
    cases scanFrom line₂ rest with
    | error e => rfl
    | ok tokens => simp [Except.map]
  · rw [List.map_append, List.map_append, hwords, hwords']

lemma cuts_space (rest : Bytes) : Cuts (utf8 " ") [] rest := by
  intro line
  have hstep := scanFrom_skip (w := []) (piece_gap (by decide : isGap (Bytes.ofAscii ' ') = true)
    rest) line
  exact ⟨_, [], hstep.trans (map_nil_append _).symm, rfl⟩

/-- A token is cut off where nothing extends it. -/
lemma cuts_of_denotes {p : Pattern} {t : Token} {rest : Bytes}
    (h : p.Denotes t.lexeme t.kind t.literal) (hends : p.Ends rest) (hrest : Clear rest) :
    Cuts t.lexeme [t] rest := by
  intro line
  obtain ⟨b, w, hw⟩ := List.exists_cons_of_ne_nil (ne_nil_of_mem_texts h.mem)
  have hcomment := not_startsComment_of_clear h hrest
  rw [hw] at h hcomment ⊢
  refine ⟨_, [⟨t.kind, b :: w, t.literal, line⟩], scanFrom_token (piece_of_denotes h hends hcomment)
    line, ?_⟩
  rw [← hw]
  rfl

/-- A token before a byte that ends every word. -/
lemma cuts_token {t : Token} (h : Spelled t) {rest : Bytes} (hrest : Parted rest) :
    Cuts t.lexeme [t] rest := by
  obtain ⟨p, hp⟩ := h
  exact cuts_of_denotes hp (ends_of_parted p hrest) hrest.clear

lemma Spelled.lexeme_ne_nil {t : Token} (h : Spelled t) : t.lexeme ≠ [] := by
  obtain ⟨p, hp⟩ := h
  exact ne_nil_of_mem_texts hp.mem

lemma Spelled.lexeme_eq_sign {t : Token} {s : Sign} (h : Spelled t) (hkind : t.kind ∈ [.sign s]) :
    t.lexeme = s.text := by
  obtain ⟨p, hp⟩ := h
  rw [List.mem_singleton.1 hkind] at hp
  exact hp.of_sign.2

/-- A sign before a byte that neither extends it nor makes it a comment. -/
lemma cuts_sign {t : Token} {s : Sign} (h : Spelled t) (hkind : t.kind ∈ [.sign s]) {rest : Bytes}
    (hrest : Clear rest) : Cuts s.text [t] rest := by
  rw [← h.lexeme_eq_sign hkind]
  obtain ⟨p, hp⟩ := h
  have hsign := hp
  rw [List.mem_singleton.1 hkind] at hsign
  obtain ⟨rfl, -⟩ := hsign.of_sign
  exact cuts_of_denotes hp (ends_sign_of_clear s hrest) hrest

/-- A reserved word before a byte that ends every word. -/
lemma cuts_keyword {t : Token} {k : Keyword} (h : Spelled t) (hkind : t.kind ∈ [.keyword k])
    {rest : Bytes} (hrest : Parted rest) : Cuts k.text [t] rest := by
  obtain ⟨p, hp⟩ := h
  have hkeyword := hp
  rw [List.mem_singleton.1 hkind] at hkeyword
  rw [← hkeyword.of_keyword]
  exact cuts_of_denotes hp (ends_of_parted p hrest) hrest.clear

/-- A text that is cut to its end has been scanned. -/
lemma Cuts.exists_scan {text : Bytes} {words : List Token} (h : Cuts text words []) :
    ∃ ts last, scan text = .ok (ts ++ [Token.atEnd last]) ∧
      ts.map Token.unplaced = words.map Token.unplaced := by
  obtain ⟨last, ts, hscan, hwords⟩ := h 1
  refine ⟨ts, last, ?_, hwords⟩
  have hend : scanFrom last [] = .ok [Token.atEnd last] := by rw [scanFrom]
  rw [List.append_nil, hend] at hscan
  exact hscan

/-! ### Words with blanks between them -/

/-- Words with single blanks between them are cut off one by one, since a blank ends every word. -/
lemma cuts_intercalate {words : List Token} (h : ∀ t ∈ words, Spelled t) :
    Cuts ((utf8 " ").intercalate (words.map Token.lexeme)) words [] := by
  induction words with
  | nil => exact cuts_nil []
  | cons t others ih =>
    obtain ⟨ht, hothers⟩ := List.forall_mem_cons.1 h
    cases others with
    | nil =>
      have hlast : Cuts t.lexeme [t] [] := cuts_token ht nofun
      simpa [List.intercalate] using hlast
    | cons u others =>
      have hfirst : Cuts t.lexeme [t]
          (utf8 " " ++ (utf8 " ").intercalate ((u :: others).map Token.lexeme) ++ []) :=
        cuts_token ht (parted_cons (by decide) _)
      have hall := hfirst.append ((cuts_space _).append (ih hothers))
      simpa [List.intercalate] using hall

/-- The texts of the tokens of a script, without the end of input and with single blanks between
them, are scanned into tokens of the same kinds, texts and literals. -/
theorem scan_spaced_lexemes {source : Bytes} {tokens : List Token} (h : scan source = .ok tokens) :
    ∃ tokens', scan ((utf8 " ").intercalate
        ((tokens.filter (·.kind ≠ .endOfInput)).map Token.lexeme)) = .ok tokens' ∧
      tokens'.map (fun t => (t.kind, t.lexeme, t.literal)) =
        tokens.map fun t => (t.kind, t.lexeme, t.literal) := by
  obtain ⟨words, last, rfl, hspelled⟩ := exists_spelled_of_scan h
  have hwords : (words ++ [Token.atEnd last]).filter (·.kind ≠ .endOfInput) = words := by
    have hkinds : words.filter (·.kind ≠ .endOfInput) = words :=
      List.filter_eq_self.2 fun t ht => decide_eq_true (hspelled t ht).kind_ne_endOfInput
    rw [List.filter_append, hkinds]
    simp [Token.atEnd]
  obtain ⟨ts, last', hscan, hts⟩ := (cuts_intercalate hspelled).exists_scan
  refine ⟨ts ++ [Token.atEnd last'], by rw [hwords, hscan], ?_⟩
  -- The tokens are the same but for their lines, which the view leaves out.
  have hsame := congrArg (List.map fun t : Token => (t.kind, t.lexeme, t.literal)) hts
  rw [List.map_map, List.map_map] at hsame
  rw [List.map_append, List.map_append]
  exact congrArg (· ++ [(Kind.endOfInput, ([] : Bytes), Literal.nil)]) hsame

/-- A script with signs that stand close, a comment, a numeral before a point, and a string over two
lines with an escaped quote. -/
theorem scan_spaced_lexemes_close :
    ∃ tokens, scan (utf8 "a<=!b==-c//d\n\"x\\\"\ny\"2.50.e/") = .ok tokens ∧
      ∃ tokens', scan ((utf8 " ").intercalate
          ((tokens.filter (·.kind ≠ .endOfInput)).map Token.lexeme)) = .ok tokens' ∧
        tokens'.map (fun t => (t.kind, t.lexeme, t.literal)) =
          tokens.map fun t => (t.kind, t.lexeme, t.literal) := by
  generalize hsource : utf8 "a<=!b==-c//d\n\"x\\\"\ny\"2.50.e/" = source
  have hread : (scan source).isOk = true := by
    rw [← hsource]
    decide +kernel
  cases htokens : scan source with
  | error e =>
    rw [htokens] at hread
    cases hread
  | ok tokens => exact ⟨tokens, rfl, scan_spaced_lexemes htokens⟩

end LoxScript.Scan
