import Mathlib.Tactic.Lemma
import LoxScript.Token.Scan

/-!
# Lines

Texts can be joined line by line.  The scan only counts lines: it never looks at the number it has
reached.  So a text that starts on a later line is scanned into the same tokens, all of them moved
by as many lines, and an error moves with them.  The tokens stand on lines that never go back, and
the end of input on the line that is reached after all line breaks of the text.
-/

namespace LoxScript

namespace Bytes

@[simp]
lemma joinLines_singleton (text : Bytes) : joinLines [text] = text := by
  simp [joinLines, List.intercalate]

lemma joinLines_cons_cons (first second : Bytes) (texts : List Bytes) :
    joinLines (first :: second :: texts) = first ++ newline :: joinLines (second :: texts) := by
  simp [joinLines, List.intercalate]

lemma joinLines_append_singleton {front : List Bytes} (h : front ≠ []) (text : Bytes) :
    joinLines (front ++ [text]) = joinLines front ++ newline :: text := by
  induction front with
  | nil => exact absurd rfl h
  | cons first rest ih =>
    cases rest with
    | nil => simp [joinLines, List.intercalate]
    | cons second others =>
      have hrest := ih (List.cons_ne_nil second others)
      rw [List.cons_append] at hrest
      rw [List.cons_append, List.cons_append, joinLines_cons_cons, joinLines_cons_cons, hrest]
      simp

end Bytes

/-- The token on another line. -/
def Token.relocate (f : Int → Int) (t : Token) : Token :=
  { t with line := f t.line }

@[simp] lemma Token.kind_relocate (f : Int → Int) (t : Token) : (t.relocate f).kind = t.kind := rfl

@[simp] lemma Token.lexeme_relocate (f : Int → Int) (t : Token) :
    (t.relocate f).lexeme = t.lexeme := rfl

/-- The error on another line. -/
def LexError.relocate (f : Int → Int) (e : LexError) : LexError :=
  { e with line := f e.line }

namespace Scan

/-- The result of a scan on other lines. -/
def relocateScan (f : Int → Int) :
    Except LexError (List Token) → Except LexError (List Token)
  | .ok tokens => .ok (tokens.map (Token.relocate f))
  | .error e => .error (e.relocate f)

/-- A text on later lines is scanned into the same tokens on later lines. -/
lemma scanFrom_add (k line : Int) (text : Bytes) :
    scanFrom (line + k) text = relocateScan (· + k) (scanFrom line text) := by
  fun_induction scanFrom line text with
  | case1 line => rw [scanFrom]; rfl
  | case2 line b rest cause hpiece => rw [scanFrom, hpiece]; rfl
  | case3 line b rest p hpiece lexeme e herror ih =>
    rw [herror, Int.add_right_comm] at ih
    rw [scanFrom, hpiece]
    dsimp only
    rw [ih]
    rfl
  | case4 line b rest p hpiece lexeme tokens htokens hnone ih =>
    rw [htokens, Int.add_right_comm] at ih
    rw [scanFrom, hpiece]
    dsimp only
    rw [ih, hnone]
    rfl
  | case5 line b rest p hpiece lexeme tokens htokens kind literal htoken ih =>
    rw [htokens, Int.add_right_comm] at ih
    rw [scanFrom, hpiece]
    dsimp only
    rw [ih, htoken]
    rfl

lemma count_take_add_count_drop (x b : UInt8) (rest : Bytes) (n : Nat) :
    (b :: rest.take n).count x + (rest.drop n).count x = (b :: rest).count x := by
  rw [← List.count_append, List.cons_append, List.take_append_drop]

/-- The end of input stands on the line after all line breaks. -/
lemma getLast?_scanFrom {line : Int} {text : Bytes} :
    ∀ tokens, scanFrom line text = .ok tokens →
      tokens.getLast? = some (Token.atEnd (line + text.count Bytes.newline)) := by
  fun_induction scanFrom line text with
  | case1 line =>
    rintro tokens ⟨⟩
    simp
  | case2 | case3 => exact nofun
  | case4 line b rest p hpiece lexeme later hlater hnone ih =>
    rintro tokens ⟨⟩
    rw [ih later hlater, ← count_take_add_count_drop Bytes.newline b rest p.size, Int.natCast_add,
      Int.add_assoc]
  | case5 line b rest p hpiece lexeme later hlater kind literal htoken ih =>
    rintro tokens ⟨⟩
    rw [List.getLast?_cons, ih later hlater,
      ← count_take_add_count_drop Bytes.newline b rest p.size, Int.natCast_add, Int.add_assoc]
    rfl

/-- The tokens stand on lines that never go back. -/
lemma pairwise_line_scanFrom {line : Int} {text : Bytes} :
    ∀ tokens, scanFrom line text = .ok tokens →
      (∀ t ∈ tokens, line ≤ t.line) ∧ tokens.Pairwise fun t u => t.line ≤ u.line := by
  fun_induction scanFrom line text with
  | case1 line =>
    rintro tokens ⟨⟩
    exact ⟨List.forall_mem_singleton.2 (Int.le_refl line), List.pairwise_singleton _ _⟩
  | case2 | case3 => exact nofun
  | case4 line b rest p hpiece lexeme later hlater hnone ih =>
    rintro tokens ⟨⟩
    obtain ⟨hline, hpairwise⟩ := ih later hlater
    have hstart : line ≤ line + lexeme.count Bytes.newline := by omega
    exact ⟨fun t ht => Int.le_trans hstart (hline t ht), hpairwise⟩
  | case5 line b rest p hpiece lexeme later hlater kind literal htoken ih =>
    rintro tokens ⟨⟩
    obtain ⟨hline, hpairwise⟩ := ih later hlater
    have hstart : line ≤ line + lexeme.count Bytes.newline := by omega
    have hlate : ∀ t ∈ later, line ≤ t.line := fun t ht => Int.le_trans hstart (hline t ht)
    exact ⟨List.forall_mem_cons.2 ⟨Int.le_refl line, hlate⟩,
      List.pairwise_cons.2 ⟨hlate, hpairwise⟩⟩

end Scan

end LoxScript
