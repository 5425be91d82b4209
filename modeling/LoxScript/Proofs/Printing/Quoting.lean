import LoxScript.Tree
import LoxScript.Proofs.Text.Utf8
import LoxScript.Proofs.Token.LongestMatch

/-!
# Quoted texts read back

A text that is printed in quotes is always one string to the scan.  The scan knows four escapes and
the printer more: what is printable, a line break or a tab is read as it was, and any other glyph is
read as the escape that was written for it, which is longer.  So a text reads back as itself exactly
when it has no such glyph.
-/

namespace LoxScript

namespace Scan

/-! ### Inside of a string, piece by piece -/

/-- Inside of a string, the scan goes over the text and reads the value, whatever follows. -/
def ReadsAs (w value : Bytes) : Prop :=
  ∀ body ∈ bodies, w ++ body ∈ bodies ∧ unescape (w ++ body) = value ++ unescape body

lemma readsAs_nil : ReadsAs [] [] :=
  fun _ hbody => ⟨hbody, rfl⟩

lemma ReadsAs.append {w w' value value' : Bytes} (h : ReadsAs w value) (h' : ReadsAs w' value') :
    ReadsAs (w ++ w') (value ++ value') := by
  intro body hbody
  obtain ⟨hmem', hvalue'⟩ := h' body hbody
  obtain ⟨hmem, hvalue⟩ := h (w' ++ body) hmem'
  rw [List.append_assoc, List.append_assoc]
  exact ⟨hmem, hvalue.trans (congrArg (value ++ ·) hvalue')⟩

lemma ReadsAs.flatMap {α : Type} {write value : α → Bytes} (h : ∀ x, ReadsAs (write x) (value x))
    (xs : List α) : ReadsAs (xs.flatMap write) (xs.flatMap value) := by
  induction xs with
  | nil => exact readsAs_nil
  | cons x xs ih => exact (h x).append ih

lemma readsAs_pair (e : UInt8) : ReadsAs [backslash, e] (escape e) :=
  fun body hbody => ⟨pair_mem_bodies e hbody, unescape_pair e body⟩

/-- A byte that needs no backslash inside of a string. -/
def Plain (b : UInt8) : Prop :=
  b ≠ quoteMark ∧ b ≠ backslash

/-- Plain bytes are read as themselves. -/
lemma readsAs_plain {w : Bytes} (hw : ∀ b ∈ w, Plain b) : ReadsAs w w := by
  induction w with
  | nil => exact readsAs_nil
  | cons b w ih =>
    obtain ⟨hquote, hbackslash⟩ := hw b List.mem_cons_self
    have hfirst : ReadsAs [b] [b] := fun body hbody =>
      ⟨cons_mem_bodies hquote hbackslash hbody, unescape_plain hbackslash body⟩
    exact hfirst.append (ih fun c hc => hw c (List.mem_cons_of_mem b hc))

/-- The text in quotes is scanned as one string. -/
lemma scan_of_readsAs {w value : Bytes} (h : ReadsAs w value) :
    scan (quoteMark :: (w ++ [quoteMark])) =
      .ok [⟨.string, quoteMark :: (w ++ [quoteMark]), .string value, 1⟩,
        Token.atEnd (1 + (quoteMark :: (w ++ [quoteMark])).count Bytes.newline)] := by
  obtain ⟨hmem, hvalue⟩ := h [] nil_mem_bodies
  rw [List.append_nil] at hmem hvalue
  rw [unescape, List.append_nil] at hvalue
  have hpiece : piece quoteMark ((w ++ [quoteMark]) ++ []) =
      .ok ⟨(w ++ [quoteMark]).length, some (.string, .string value)⟩ := by
    rw [List.append_nil, piece_string hmem, hvalue, List.length_append]
    rfl
  have hstep := scanFrom_token hpiece 1
  rw [List.append_nil, scanFrom] at hstep
  exact hstep

end Scan

open Scan

/-! ### Hexadecimal digits -/

lemma mem_toDigits_sixteen {n : Nat} {c : Char} (h : c ∈ Nat.toDigits 16 n) :
    ∃ d < 16, c = Nat.digitChar d := by
  induction n using Nat.strong_induction_on with
  | h n ih =>
    rw [Nat.toDigits_eq_if (by decide)] at h
    split_ifs at h with hn
    · exact ⟨n, hn, List.mem_singleton.1 h⟩
    · rcases List.mem_append.1 h with h | h
      · exact ih (n / 16) (by omega) h
      · exact ⟨n % 16, by omega, List.mem_singleton.1 h⟩

lemma plain_ofHex {width n : Nat} : ∀ b ∈ Bytes.ofHex width n, Plain b := by
  have hdigits : ∀ d < 16, Plain (Bytes.ofAscii (Nat.digitChar d)) := by
    unfold Plain
    decide
  intro b hb
  rcases List.mem_append.1 hb with hb | hb
  · rw [List.eq_of_mem_replicate hb]
    exact hdigits 0 (by decide)
  · obtain ⟨c, hc, rfl⟩ := List.mem_map.1 hb
    obtain ⟨d, hd, rfl⟩ := mem_toDigits_sixteen hc
    exact hdigits d hd

lemma le_length_ofHex (width n : Nat) : width ≤ (Bytes.ofHex width n).length := by
  simp only [Bytes.ofHex, List.length_append, List.length_replicate]
  omega

/-- An escape by number, which the scan does not know, is read as it stands. -/
lemma readsAs_ofHex {e : UInt8} (he : escape e = [backslash, e]) (width n : Nat) :
    ReadsAs ([backslash, e] ++ Bytes.ofHex width n) ([backslash, e] ++ Bytes.ofHex width n) := by
  have hpair := readsAs_pair e
  rw [he] at hpair
  exact hpair.append (readsAs_plain plain_ofHex)

/-! ### One glyph -/

/-- The predicate holds of the ASCII characters from the space to the tilde. -/
def CoversAscii (printable : Char → Bool) : Prop :=
  ∀ c : Char, 0x20 ≤ c.toNat → c.toNat ≤ 0x7E → printable c = true

lemma coversAscii_isPrintable : CoversAscii isPrintable := by
  intro c hlow hhigh
  simp only [isPrintable]
  rw [if_pos (by omega), decide_eq_true hlow]

namespace Glyph

/-- Is the glyph read as it was, when it stands in a quoted text? -/
def legible (printable : Char → Bool) : Glyph → Bool
  | .char c => printable c || c = '\n' || c = '\t'
  | .stray _ => false

/-- What is read for the glyph when it stands in a quoted text. -/
def readBack (printable : Char → Bool) (g : Glyph) : Bytes :=
  if g.legible printable then g.encode else Quoted.writeGlyph printable '"' g

end Glyph

lemma plain_utf8EncodeChar {c : Char} (hquote : c ≠ '"') (hbackslash : c ≠ '\\') :
    ∀ b ∈ String.utf8EncodeChar c, Plain b := by
  have hne : ∀ {d : Char}, d.toNat < 0x80 → c ≠ d → ∀ b ∈ String.utf8EncodeChar c,
      b ≠ Bytes.ofAscii d := by
    rintro d hd hcd b hb rfl
    have hbyte : (Bytes.ofAscii d).toNat = d.toNat := Nat.mod_eq_of_lt (by omega)
    have hnumber := (Glyph.encodes_utf8EncodeChar c).toNat_eq_or_le hb
    rw [hbyte] at hnumber
    exact hcd (Char.toNat_inj.1 (by omega))
  exact fun b hb => ⟨hne (by decide) hquote b hb, hne (by decide) hbackslash b hb⟩

/-- The scan knows the letters of the line break and of the tab, and no other. -/
lemma controlLetter?_eq_some {c letter : Char} (h : Quoted.controlLetter? c = some letter) :
    String.utf8EncodeChar letter = [Bytes.ofAscii letter] ∧ (String.utf8EncodeChar c).length = 1 ∧
      escape (Bytes.ofAscii letter) =
        if c = '\n' ∨ c = '\t' then String.utf8EncodeChar c
        else [backslash, Bytes.ofAscii letter] := by
  revert h
  have hc := Char.ofNat_toNat c
  fun_cases Quoted.controlLetter? c with
  | case8 => nofun
  | _ hn =>
    rintro ⟨⟩
    rw [hn] at hc
    subst hc
    decide

/-- A character that is escaped by its number is read as its escape. -/
lemma readsAs_byNumber (c : Char) : ReadsAs (Quoted.byNumber c) (Quoted.byNumber c) := by
  rw [Quoted.byNumber]
  split_ifs
  · exact readsAs_ofHex (e := Bytes.ofAscii 'x') (by decide) 2 c.toNat
  · exact readsAs_ofHex (e := Bytes.ofAscii 'u') (by decide) 4 c.toNat
  · exact readsAs_ofHex (e := Bytes.ofAscii 'U') (by decide) 8 c.toNat

lemma length_lt_length_byNumber (c : Char) :
    (String.utf8EncodeChar c).length < (Quoted.byNumber c).length := by
  have hsize := c.utf8Size_le_four
  rw [Quoted.byNumber, String.length_utf8EncodeChar]
  split_ifs with hascii
  · have hone : c.utf8Size = 1 := Char.utf8Size_eq_one_iff.2 (Nat.le_of_lt_succ hascii)
    have hdigits := le_length_ofHex 2 c.toNat
    rw [hone, List.length_append]
    omega
  · have hdigits := le_length_ofHex 4 c.toNat
    have hletter : (utf8 "\\u").length = 2 := by decide
    rw [List.length_append]
    omega
  · have hdigits := le_length_ofHex 8 c.toNat
    rw [List.length_append]
    omega

namespace Glyph

variable {printable : Char → Bool}

/-- The ways a glyph can be written: what is legible is read as it was, and the rest as it is
written, which takes more bytes. -/
lemma readsAs_writeGlyph_cases (hascii : CoversAscii printable) (g : Glyph) :
    g.legible printable = true ∧ ReadsAs (Quoted.writeGlyph printable '"' g) g.encode ∨
      g.legible printable = false ∧ g.encode.length < (Quoted.writeGlyph printable '"' g).length ∧
        ReadsAs (Quoted.writeGlyph printable '"' g) (Quoted.writeGlyph printable '"' g) := by
  cases g with
  | stray b =>
    refine .inr ⟨rfl, ?_, readsAs_ofHex (e := Bytes.ofAscii 'x') (by decide) 2 b.toNat⟩
    have hdigits := le_length_ofHex 2 b.toNat
    simp only [encode, Quoted.writeGlyph, List.length_singleton, List.length_append]
    omega
  | char c =>
    simp only [legible, encode, Quoted.writeGlyph, Quoted.writeChar]
    split_ifs with hmark hprintable
    · -- The quote and the backslash are printable, and the scan knows their escapes.
      left
      rcases hmark with rfl | rfl
      · exact ⟨by simp [hascii '"' (by decide) (by decide)], readsAs_pair quoteMark⟩
      · exact ⟨by simp [hascii '\\' (by decide) (by decide)], readsAs_pair backslash⟩
    · rw [not_or] at hmark
      exact .inl ⟨by simp [hprintable], readsAs_plain (plain_utf8EncodeChar hmark.1 hmark.2)⟩
    · cases hletter : Quoted.controlLetter? c with
      | some letter =>
        obtain ⟨hbyte, hlength, hescape⟩ := controlLetter?_eq_some hletter
        have hpair := readsAs_pair (Bytes.ofAscii letter)
        rw [hescape] at hpair
        simp only [hbyte]
        -- Of the seven letters that are written, the scan knows two.
        split_ifs at hpair with hknown
        · exact .inl ⟨by simpa [hprintable] using hknown, hpair⟩
        · refine .inr ⟨by simpa [hprintable] using hknown, ?_, hpair⟩
          rw [hlength]
          exact Nat.one_lt_two
      | none =>
        have hother : c ≠ '\n' ∧ c ≠ '\t' := by
          constructor <;> rintro rfl <;> cases hletter
        exact .inr ⟨by simp [hprintable, hother.1, hother.2], length_lt_length_byNumber c,
          readsAs_byNumber c⟩

lemma readsAs_writeGlyph (hascii : CoversAscii printable) (g : Glyph) :
    ReadsAs (Quoted.writeGlyph printable '"' g) (g.readBack printable) := by
  rw [readBack]
  rcases readsAs_writeGlyph_cases hascii g with ⟨hlegible, hreads⟩ | ⟨hlegible, -, hreads⟩
  · rwa [if_pos hlegible]
  · rwa [if_neg (by simp [hlegible])]

lemma readBack_of_legible {g : Glyph} (h : g.legible printable = true) :
    g.readBack printable = g.encode :=
  if_pos h

/-- A glyph that is not legible gets longer. -/
lemma length_encode_lt_length_readBack (hascii : CoversAscii printable) {g : Glyph}
    (h : g.legible printable = false) : g.encode.length < (g.readBack printable).length := by
  rw [readBack, if_neg (by simp [h])]
  rcases readsAs_writeGlyph_cases hascii g with ⟨hlegible, -⟩ | ⟨-, hlength, -⟩
  · cases hlegible.symm.trans h
  · exact hlength

/-! ### All glyphs of a text -/

lemma length_flatMap_encode_le (hascii : CoversAscii printable) (gs : List Glyph) :
    (gs.flatMap encode).length ≤ (gs.flatMap (readBack printable)).length := by
  induction gs with
  | nil => exact Nat.le_refl 0
  | cons g gs ih =>
    rw [List.flatMap_cons, List.flatMap_cons, List.length_append, List.length_append]
    cases hlegible : g.legible printable with
    | true =>
      rw [readBack_of_legible hlegible]
      omega
    | false =>
      have hlonger := length_encode_lt_length_readBack hascii hlegible
      omega

/-- Glyphs are read back if each of them is legible; one that is not makes the whole too long. -/
lemma flatMap_readBack_eq_iff (hascii : CoversAscii printable) (gs : List Glyph) :
    gs.flatMap (readBack printable) = gs.flatMap encode ↔ ∀ g ∈ gs, g.legible printable = true := by
  induction gs with
  | nil => simp
  | cons g gs ih =>
    rw [List.forall_mem_cons, ← ih, List.flatMap_cons, List.flatMap_cons]
    cases hlegible : g.legible printable with
    | true => simp [readBack_of_legible hlegible]
    | false =>
      have hlonger := length_encode_lt_length_readBack hascii hlegible
      have hrest := length_flatMap_encode_le hascii gs
      refine iff_of_false (fun heq => ?_) (by simp)
      have hlength := congrArg List.length heq
      rw [List.length_append, List.length_append] at hlength
      omega

lemma exists_map_char_of_legible {gs : List Glyph} (h : ∀ g ∈ gs, g.legible printable = true) :
    ∃ cs : List Char, gs = cs.map .char ∧ ∀ c ∈ cs, printable c = true ∨ c = '\n' ∨ c = '\t' := by
  induction gs with
  | nil => exact ⟨[], rfl, nofun⟩
  | cons g gs ih =>
    rw [List.forall_mem_cons] at h
    obtain ⟨cs, rfl, hcs⟩ := ih h.2
    cases g with
    | stray b => cases h.1
    | char c =>
      have hc : printable c = true ∨ c = '\n' ∨ c = '\t' := by
        simpa [legible, or_assoc] using h.1
      exact ⟨c :: cs, rfl, List.forall_mem_cons.2 ⟨hc, hcs⟩⟩

/-- The legible texts are the encodings of characters that are printable, line breaks or tabs. -/
lemma forall_legible_decode_iff (w : Bytes) :
    (∀ g ∈ decode w, g.legible printable = true) ↔
      ∃ cs : List Char, w = cs.flatMap String.utf8EncodeChar ∧
        ∀ c ∈ cs, printable c = true ∨ c = '\n' ∨ c = '\t' := by
  constructor
  · intro h
    obtain ⟨cs, hdecode, hcs⟩ := exists_map_char_of_legible h
    refine ⟨cs, ?_, hcs⟩
    rw [← flatMap_encode_decode w, hdecode, List.flatMap_map]
    rfl
  · rintro ⟨cs, rfl, hcs⟩ g hg
    rw [decode_flatMap_utf8EncodeChar] at hg
    obtain ⟨c, hc, rfl⟩ := List.mem_map.1 hg
    simpa [legible, or_assoc] using hcs c hc

end Glyph

/-- A string literal without a text of its own is printed as one string.  The string has the
literal's value exactly when this is UTF-8 for characters that are printable, line breaks or tabs.
All this holds for any predicate of printable characters that covers ASCII. -/
theorem scan_quoted_literal {token : Token} (htoken : token.lexeme = []) (w : Bytes) :
    (Expr.literal token (.string w)).render = Quoted.write isPrintable w ∧
      CoversAscii isPrintable ∧
        ∀ printable, CoversAscii printable →
          ∃ value, scan (Quoted.write printable w) =
              .ok [⟨.string, Quoted.write printable w, .string value, 1⟩,
                Token.atEnd (1 + (Quoted.write printable w).count Bytes.newline)] ∧
            (value = w ↔ ∃ cs : List Char, w = cs.flatMap String.utf8EncodeChar ∧
              ∀ c ∈ cs, printable c = true ∨ c = '\n' ∨ c = '\t') := by
  refine ⟨by rw [Expr.render, if_pos htoken]; rfl, coversAscii_isPrintable, ?_⟩
  intro printable hascii
  refine ⟨(Glyph.decode w).flatMap (Glyph.readBack printable), ?_, ?_⟩
  · exact scan_of_readsAs (ReadsAs.flatMap (Glyph.readsAs_writeGlyph hascii) (Glyph.decode w))
  · rw [← Glyph.forall_legible_decode_iff, ← Glyph.flatMap_readBack_eq_iff hascii,
      Glyph.flatMap_encode_decode]

/-- Quotes, backslashes and line breaks come back; a bell and a stray byte do not. -/
theorem scan_quoted_literal_mixed :
    (∃ tokens,
        scan (Expr.literal (Token.atEnd 1) (.string (utf8 "\"é\\\n\t"))).render = .ok tokens ∧
          tokens.map Token.literal = [.string (utf8 "\"é\\\n\t"), .nil]) ∧
      ∃ tokens value,
        scan (Expr.literal (Token.atEnd 1) (.string (utf8 "é\x07" ++ [0xFF]))).render = .ok tokens ∧
          tokens.map Token.literal = [.string value, .nil] ∧ value ≠ utf8 "é\x07" ++ [0xFF] := by
  constructor
  · obtain ⟨hrender, hcovers, hscan⟩ :=
      @scan_quoted_literal (Token.atEnd 1) rfl (utf8 "\"é\\\n\t")
    obtain ⟨value, htokens, hvalue⟩ := hscan isPrintable hcovers
    rw [← Glyph.forall_legible_decode_iff] at hvalue
    have hsame := hvalue.2 (by decide)
    rw [hrender]
    exact ⟨_, htokens, by rw [hsame]; rfl⟩
  · obtain ⟨hrender, hcovers, hscan⟩ :=
      @scan_quoted_literal (Token.atEnd 1) rfl (utf8 "é\x07" ++ [0xFF])
    obtain ⟨value, htokens, hvalue⟩ := hscan isPrintable hcovers
    rw [← Glyph.forall_legible_decode_iff] at hvalue
    rw [hrender]
    exact ⟨_, value, htokens, rfl, mt hvalue.1 (by decide)⟩

end LoxScript
