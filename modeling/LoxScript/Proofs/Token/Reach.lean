import Mathlib.Data.List.TakeWhile
import LoxScript.Proofs.Token.Pattern

/-!
# How far a token reaches

The scan measures a token by looking ahead: to the closing quote, to the last digit, to the last
byte of a word, or one byte after a sign.  Here each measure is compared with the texts of its
pattern.  What follows a token matters only where it could make the token longer.
-/

namespace LoxScript

/-! ### Signs -/

namespace Sign

lemma ofText?_text (s : Sign) : ofText? s.text = some s := by
  cases s <;> rfl

lemma text_of_ofText? {t : Bytes} {s : Sign} (h : ofText? t = some s) : s.text = t := by
  have hs := List.find?_some h
  simpa using hs

lemma length_text (s : Sign) : s.text.length = 1 ∨ s.text.length = 2 := by
  cases s <;> decide

/-- The sign at the front is the longest one there. -/
lemma front?_of_longest {s : Sign} {text : Bytes} (hs : s.text <+: text)
    (hlongest : ∀ s' : Sign, s'.text <+: text → s'.text.length ≤ s.text.length) :
    front? text = some s := by
  have htake : ofText? (text.take s.text.length) = some s := by
    rw [← List.prefix_iff_eq_take.1 hs, ofText?_text]
  unfold front?
  rcases s.length_text with hlength | hlength
  · rw [hlength] at htake hlongest
    rw [htake]
    cases htwo : ofText? (text.take 2) with
    | none => rfl
    | some s' =>
      -- A second sign at the front is no longer, so it is the first one.
      have htext : s'.text = text.take 2 := text_of_ofText? htwo
      have hshort : s'.text.length ≤ 1 := hlongest s' (htext ▸ List.take_prefix 2 text)
      have hone : text.take 2 = text.take 1 := by
        rw [htext, List.length_take] at hshort
        rw [List.take_of_length_le (by omega), List.take_of_length_le (by omega)]
      rw [hone, htake] at htwo
      rw [← htwo]
      rfl
  · rw [hlength] at htake
    rw [htake]
    rfl

/-- Without a sign there, none is found. -/
lemma front?_eq_none {text : Bytes} (h : ∀ s : Sign, ¬ s.text <+: text) : front? text = none := by
  have htake : ∀ n, ofText? (text.take n) = none := by
    intro n
    by_contra hne
    obtain ⟨s, hs⟩ := Option.ne_none_iff_exists'.1 hne
    exact h s (text_of_ofText? hs ▸ List.take_prefix n text)
  rw [front?, htake, htake]
  rfl

end Sign

namespace Numeral

open Scan

/-! ### Numerals -/

lemma extent_append_of_forall {d : Bytes} (hd : ∀ b ∈ d, Bytes.isDigit b = true) (rest : Bytes) :
    extent (d ++ rest) = d.length + extent rest := by
  induction d with
  | nil => simp
  | cons b d ih =>
    have hb : Bytes.isDigit b = true := hd b List.mem_cons_self
    have htail := ih fun c hc => hd c (List.mem_cons_of_mem b hc)
    rw [List.cons_append, extent.eq_def]
    simp only [hb, if_true, htail, List.length_cons]
    omega

/-- Every point with digits after it belongs to the numeral. -/
lemma extent_append_of_pointedDigits {u : Bytes} (hu : u ∈ pointedDigits) (rest : Bytes) :
    extent (u ++ rest) = u.length + extent rest := by
  refine pointedDigits_induction hu (by simp) fun d hd u _ ih => ?_
  obtain ⟨hne, hdigits⟩ := mem_digits.1 hd
  have htail : extent (d ++ (u ++ rest)) = d.length + (u.length + extent rest) := by
    rw [extent_append_of_forall hdigits, ih]
  obtain ⟨b, d', rfl⟩ := List.exists_cons_of_ne_nil hne
  have hb : Bytes.isDigit b = true := hdigits b List.mem_cons_self
  have hpoint : Bytes.isDigit point = false := by decide
  rw [List.cons_append] at htail
  rw [List.cons_append, List.append_assoc, List.cons_append, extent.eq_def]
  simp only [hpoint, hb, if_true, htail, List.length_cons, List.length_append]
  simp only [Bool.false_eq_true, if_false]
  omega

/-- A numeral can only go on with a digit, or with a point and a digit. -/
lemma extent_ne_zero {text : Bytes} (h : extent text ≠ 0) :
    ∃ c tail, Bytes.isDigit c = true ∧ (text = c :: tail ∨ text = point :: c :: tail) := by
  unfold extent at h
  split at h
  case h_1 => exact absurd rfl h
  case h_2 b rest =>
    by_cases hb : Bytes.isDigit b = true
    · exact ⟨b, rest, hb, .inl rfl⟩
    · simp only [hb] at h
      by_cases hpoint : b = point
      · simp only [hpoint, if_true] at h
        cases rest with
        | nil => exact absurd rfl h
        | cons c rest =>
          by_cases hc : Bytes.isDigit c = true
          · exact ⟨c, rest, hc, .inr (by rw [hpoint])⟩
          · simp [hc] at h
      · simp [hpoint] at h

lemma mem_texts_numeral {w : Bytes} :
    w ∈ Pattern.numeral.texts ↔ ∃ d ∈ digits, ∃ u ∈ pointedDigits, w = d ++ u := by
  constructor
  · intro h
    obtain ⟨d, hd, u, hu, rfl⟩ := Language.mem_mul.1 h
    exact ⟨d, hd, u, hu, rfl⟩
  · rintro ⟨d, hd, u, hu, rfl⟩
    exact Language.append_mem_mul hd hu

/-- The scan measures a numeral from its second byte on. -/
lemma extent_of_mem_texts {b : UInt8} {w : Bytes} (h : b :: w ∈ Pattern.numeral.texts)
    (rest : Bytes) : extent (w ++ rest) = w.length + extent rest := by
  obtain ⟨d, hd, u, hu, hw⟩ := mem_texts_numeral.1 h
  obtain ⟨hne, hdigits⟩ := mem_digits.1 hd
  obtain ⟨c, d, rfl⟩ := List.exists_cons_of_ne_nil hne
  rw [List.cons_append] at hw
  obtain ⟨rfl, rfl⟩ := List.cons.inj hw
  rw [List.append_assoc, extent_append_of_forall fun c hc => hdigits c (List.mem_cons_of_mem b hc),
    extent_append_of_pointedDigits hu, List.length_append]
  omega

lemma append_digit_mem_digits {d : Bytes} (hd : d ∈ digits) {c : UInt8}
    (hc : Bytes.isDigit c = true) : d ++ [c] ∈ digits := by
  obtain ⟨-, hdigits⟩ := mem_digits.1 hd
  refine mem_digits.2 ⟨by simp, fun b hb => ?_⟩
  rcases List.mem_append.1 hb with hb | hb
  · exact hdigits b hb
  · rw [List.mem_singleton.1 hb]
    exact hc

lemma singleton_mem_digits {c : UInt8} (hc : Bytes.isDigit c = true) : [c] ∈ digits :=
  mem_digits.2 ⟨by simp, by simpa using hc⟩

/-- A point and digits in front of a text with points. -/
lemma point_mem_pointedDigits {d u : Bytes} (hd : d ∈ digits) (hu : u ∈ pointedDigits) :
    point :: (d ++ u) ∈ pointedDigits := by
  have hfirst : point :: d ∈ byte (· = point) * digits :=
    Language.mem_mul.2 ⟨[point], ⟨point, by simp, rfl⟩, d, hd, rfl⟩
  exact append_mem_kstar hfirst hu

/-- A text with points can be extended by a digit, unless it is empty. -/
lemma append_digit_mem_pointedDigits {u : Bytes} (hu : u ∈ pointedDigits) {c : UInt8}
    (hc : Bytes.isDigit c = true) : u = [] ∨ u ++ [c] ∈ pointedDigits := by
  refine pointedDigits_induction hu (.inl rfl) fun d hd u hu ih => .inr ?_
  rcases ih with rfl | ih
  · have hlonger := point_mem_pointedDigits (append_digit_mem_digits hd hc) hu
    simpa using hlonger
  · have hlonger := point_mem_pointedDigits hd ih
    simpa using hlonger

/-- A numeral can be extended by a digit. -/
lemma append_digit_mem_texts {w : Bytes} (hw : w ∈ Pattern.numeral.texts) {c : UInt8}
    (hc : Bytes.isDigit c = true) : w ++ [c] ∈ Pattern.numeral.texts := by
  obtain ⟨d, hd, u, hu, rfl⟩ := mem_texts_numeral.1 hw
  rcases append_digit_mem_pointedDigits hu hc with rfl | hlonger
  · exact mem_texts_numeral.2 ⟨d ++ [c], append_digit_mem_digits hd hc, [], hu, by simp⟩
  · exact mem_texts_numeral.2 ⟨d, hd, u ++ [c], hlonger, by simp⟩

/-- A numeral can be extended by a point and a digit. -/
lemma append_point_mem_texts {w : Bytes} (hw : w ∈ Pattern.numeral.texts) {c : UInt8}
    (hc : Bytes.isDigit c = true) : w ++ [point, c] ∈ Pattern.numeral.texts := by
  obtain ⟨d, hd, u, hu, rfl⟩ := mem_texts_numeral.1 hw
  have hnil : [] ∈ pointedDigits := Language.nil_mem_kstar _
  refine mem_texts_numeral.2 ⟨d, hd, u ++ [point, c], ?_, by simp⟩
  refine pointedDigits_induction hu ?_ fun d' hd' u' _ ih => ?_
  · exact point_mem_pointedDigits (singleton_mem_digits hc) hnil
  · have hlonger := point_mem_pointedDigits hd' ih
    simpa using hlonger

/-- A numeral with two points is no number. -/
lemma value?_eq_none_of_points {text : Bytes} (h : 2 ≤ text.count point) : value? text = none := by
  have hwhole : (text.takeWhile Bytes.isDigit).count point = 0 := by
    refine List.count_eq_zero.2 fun hmem => ?_
    have hdigit : Bytes.isDigit point = true := List.mem_takeWhile_imp hmem
    exact absurd hdigit (by decide)
  have hsplit : text.count point = (text.dropWhile Bytes.isDigit).count point := by
    conv_lhs => rw [← List.takeWhile_append_dropWhile (p := Bytes.isDigit) (l := text)]
    rw [List.count_append, hwhole, Nat.zero_add]
  have hfraction : point ∈ (text.dropWhile Bytes.isDigit).drop 1 := by
    refine List.count_pos_iff.1 ?_
    cases hdrop : text.dropWhile Bytes.isDigit with
    | nil =>
      rw [hsplit, hdrop] at h
      simp at h
    | cons b tail =>
      rw [hsplit, hdrop, List.count_cons] at h
      rw [List.drop_succ_cons, List.drop_zero]
      split at h <;> omega
  have hnot : ((text.dropWhile Bytes.isDigit).drop 1).all Bytes.isDigit = false := by
    rw [List.all_eq_false]
    exact ⟨point, hfraction, by decide⟩
  simp only [value?, hnot, Bool.false_eq_true, if_false]

end Numeral

namespace Scan

/-! ### Strings -/

lemma closing?_quote (rest : Bytes) : closing? (quoteMark :: rest) = some 1 := by
  rw [closing?.eq_def]
  simp

lemma closing?_plain {b : UInt8} (hquote : b ≠ quoteMark) (hbackslash : b ≠ backslash)
    (rest : Bytes) : closing? (b :: rest) = (closing? rest).map (· + 1) := by
  rw [closing?.eq_def]
  simp [hquote, hbackslash]

lemma closing?_pair (e : UInt8) (rest : Bytes) :
    closing? (backslash :: e :: rest) = (closing? rest).map (· + 2) := by
  have hquote : backslash ≠ quoteMark := by decide
  rw [closing?.eq_def]
  simp [hquote]

/-- A body ends at the quote after it. -/
lemma closing?_append {body : Bytes} (hbody : body ∈ bodies) (rest : Bytes) :
    closing? (body ++ quoteMark :: rest) = some (body.length + 1) := by
  refine bodies_induction hbody ?_ (fun b u hquote hbackslash ih => ?_) fun e u ih => ?_
  · exact closing?_quote rest
  · rw [List.cons_append, closing?_plain hquote hbackslash, ih]
    rfl
  · rw [List.cons_append, List.cons_append, closing?_pair, ih]
    rfl

/-- Where a closing quote is found, a body stands before it. -/
lemma exists_body_of_closing? {text : Bytes} {n : Nat} (h : closing? text = some n) :
    ∃ body ∈ bodies, ∃ rest, text = body ++ quoteMark :: rest := by
  fun_induction closing? text generalizing n with
  | case1 => cases h
  | case2 rest => exact ⟨[], nil_mem_bodies, rest, rfl⟩
  | case3 => cases h
  | case4 e rest _ ih =>
    obtain ⟨m, hm, -⟩ := Option.map_eq_some_iff.1 h
    obtain ⟨body, hbody, rest, rfl⟩ := ih hm
    exact ⟨_, pair_mem_bodies e hbody, rest, rfl⟩
  | case5 b rest hquote hbackslash ih =>
    obtain ⟨m, hm, -⟩ := Option.map_eq_some_iff.1 h
    obtain ⟨body, hbody, rest, rfl⟩ := ih hm
    exact ⟨_, cons_mem_bodies hquote hbackslash hbody, rest, rfl⟩

lemma unescape_plain {b : UInt8} (hbackslash : b ≠ backslash) (body : Bytes) :
    unescape (b :: body) = b :: unescape body := by
  rw [unescape.eq_def]
  simp [hbackslash]

lemma unescape_pair (e : UInt8) (body : Bytes) :
    unescape (backslash :: e :: body) = escape e ++ unescape body := by
  rw [unescape.eq_def]
  simp

/-- The value of a string is what its body stands for. -/
lemma unescape_of_standsFor {body value : Bytes} (h : StandsFor body value) :
    unescape body = value := by
  induction h with
  | nil => rfl
  | plain hb _ ih => rw [unescape_plain hb, ih]
  | quote _ ih => rw [unescape_pair, ih]; rfl
  | backslash _ ih => rw [unescape_pair, ih]; rfl
  | newline _ ih => rw [unescape_pair, ih]; rfl
  | tab _ ih => rw [unescape_pair, ih]; rfl
  | other he _ ih =>
    simp only [List.mem_cons, List.not_mem_nil, or_false, not_or] at he
    obtain ⟨hquote, hbackslash, hn, ht⟩ := he
    rw [unescape_pair, ih, escape, if_neg (not_or.2 ⟨hquote, hbackslash⟩), if_neg hn, if_neg ht]
    rfl

/-- Every body stands for something. -/
lemma standsFor_unescape {body : Bytes} (hbody : body ∈ bodies) :
    StandsFor body (unescape body) := by
  refine bodies_induction hbody .nil (fun b u _ hbackslash ih => ?_) fun e u ih => ?_
  · rw [unescape_plain hbackslash]
    exact .plain hbackslash ih
  · rw [unescape_pair]
    by_cases he : e ∈ [quoteMark, backslash, Bytes.ofAscii 'n', Bytes.ofAscii 't']
    · simp only [List.mem_cons, List.not_mem_nil, or_false] at he
      rcases he with rfl | rfl | rfl | rfl
      · exact .quote ih
      · exact .backslash ih
      · exact .newline ih
      · exact .tab ih
    · have hescape : escape e = [backslash, e] := by
        simp only [List.mem_cons, List.not_mem_nil, or_false, not_or] at he
        obtain ⟨hquote, hbackslash, hn, ht⟩ := he
        rw [escape, if_neg (not_or.2 ⟨hquote, hbackslash⟩), if_neg hn, if_neg ht]
      rw [hescape]
      exact .other he ih

/-! ### Pieces -/

/-- The bytes that start a token of each pattern are different, and start no gap. -/
lemma letter_facts {b : UInt8} (h : Bytes.isLetter b = true) :
    isGap b = false ∧ b ≠ slash ∧ b ≠ quoteMark ∧ Bytes.isDigit b = false := by
  simp only [Bytes.isLetter, isGap, Bytes.isDigit, slash, quoteMark, Bytes.newline,
    UInt8.le_iff_toNat_le, ← UInt8.toNat_inj, Bool.or_eq_true, Bool.and_eq_true, decide_eq_true_eq,
    beq_iff_eq, Bool.or_eq_false_iff, beq_eq_false_iff_ne, ne_eq, Bool.and_eq_false_iff,
    decide_eq_false_iff_not, UInt8.reduceToNat] at *
  omega

lemma digit_facts {b : UInt8} (h : Bytes.isDigit b = true) :
    isGap b = false ∧ b ≠ slash ∧ b ≠ quoteMark := by
  simp only [isGap, Bytes.isDigit, slash, quoteMark, Bytes.newline, UInt8.le_iff_toNat_le,
    ← UInt8.toNat_inj, Bool.and_eq_true, decide_eq_true_eq, Bool.or_eq_false_iff,
    beq_eq_false_iff_ne, ne_eq, UInt8.reduceToNat] at *
  omega

/-- A sign starts with a byte of its own. -/
lemma sign_facts {s : Sign} {b : UInt8} {w : Bytes} (h : s.text = b :: w) :
    isGap b = false ∧ b ≠ quoteMark ∧ Bytes.isDigit b = false ∧ Bytes.isLetter b = false := by
  have hb : b = s.text.headD 0 := by rw [h]; rfl
  rw [hb]
  cases s <;> decide

/-- The text starts with a comment. -/
abbrev StartsComment (text : Bytes) : Prop :=
  [slash, slash] <+: text

lemma startsComment_cons {b : UInt8} {rest : Bytes} :
    StartsComment (b :: rest) ↔ b = slash ∧ rest.head? = some slash := by
  cases rest with
  | nil => simp [StartsComment, List.cons_prefix_cons]
  | cons c rest =>
    simp only [StartsComment, List.cons_prefix_cons, List.nil_prefix, and_true, List.head?_cons,
      Option.some.injEq]
    exact ⟨fun h => ⟨h.1.symm, h.2.symm⟩, fun h => ⟨h.1.symm, h.2.symm⟩⟩

/-- What comes after a token of the pattern does not make it longer. -/
def Pattern.Ends : Pattern → Bytes → Prop
  | sign s, rest => ∀ s' : Sign, s'.text <+: s.text ++ rest → s'.text.length ≤ s.text.length
  | word, rest => ∀ c ∈ rest.head?, isWordByte c = false
  | numeral, rest => Numeral.extent rest = 0
  | string, _ => True

lemma piece_gap {b : UInt8} (h : isGap b = true) (rest : Bytes) :
    piece b rest = .ok ⟨0, none⟩ := by
  rw [piece, if_pos h]

/-- A comment reaches to the end of its line. -/
lemma piece_comment {body rest : Bytes} (hbody : Bytes.newline ∉ body)
    (hrest : rest = [] ∨ [Bytes.newline] <+: rest) :
    piece slash (slash :: (body ++ rest)) = .ok ⟨(slash :: body).length, none⟩ := by
  have hgap : isGap slash = false := by decide
  have hline : (slash :: (body ++ rest)).takeWhile (· ≠ Bytes.newline) = slash :: body := by
    have hall : ∀ c ∈ slash :: body, decide (c ≠ Bytes.newline) = true := by
      intro c hc
      rcases List.mem_cons.1 hc with rfl | hc
      · decide
      · exact decide_eq_true fun heq => hbody (heq ▸ hc)
    rw [← List.cons_append, List.takeWhile_append_of_pos hall]
    rcases hrest with rfl | ⟨tail, rfl⟩
    · simp
    · simp
  rw [piece, hgap, if_neg Bool.false_ne_true, if_pos ⟨rfl, rfl⟩, hline]

lemma piece_word {b : UInt8} {w rest : Bytes} (hb : Bytes.isLetter b = true)
    (hw : ∀ c ∈ w, isWordByte c = true) (hends : Pattern.word.Ends rest) :
    piece b (w ++ rest) = .ok ⟨w.length, some (.ofWord (b :: w), .nil)⟩ := by
  obtain ⟨hgap, hslash, hquote, hdigit⟩ := letter_facts hb
  have hword : (w ++ rest).takeWhile isWordByte = w := by
    rw [List.takeWhile_append_of_pos hw]
    cases rest with
    | nil => simp
    | cons c rest =>
      have hc : isWordByte c = false := hends c rfl
      simp [hc]
  simp only [piece, hgap, hslash, hquote, hdigit, hb, hword, Bool.false_eq_true, if_false,
    false_and, if_true]

/-- The numeral at the front is measured as its pattern says, and then looked up. -/
lemma piece_numeral {b : UInt8} {w rest : Bytes} (hw : b :: w ∈ Pattern.numeral.texts)
    (hends : Pattern.numeral.Ends rest) :
    piece b (w ++ rest) =
      match Numeral.value? (b :: w) with
      | some x => .ok ⟨w.length, some (.number, .number x)⟩
      | none => .error (.badNumeral (b :: w)) := by
  have hdigit : Bytes.isDigit b = true := by
    obtain ⟨d, hd, u, -, hsplit⟩ := Numeral.mem_texts_numeral.1 hw
    obtain ⟨hne, hdigits⟩ := mem_digits.1 hd
    obtain ⟨c, d, rfl⟩ := List.exists_cons_of_ne_nil hne
    rw [List.cons_append] at hsplit
    rw [(List.cons.inj hsplit).1]
    exact hdigits c List.mem_cons_self
  obtain ⟨hgap, hslash, hquote⟩ := digit_facts hdigit
  have hextent : Numeral.extent (w ++ rest) = w.length := by
    rw [Numeral.extent_of_mem_texts hw, show Numeral.extent rest = 0 from hends, Nat.add_zero]
  cases hvalue : Numeral.value? (b :: w) with
  | none => simp [piece, hgap, hslash, hquote, hdigit, hextent, hvalue]
  | some x => simp [piece, hgap, hslash, hquote, hdigit, hextent, hvalue]

lemma piece_string {body : Bytes} (hbody : body ∈ bodies) (rest : Bytes) :
    piece quoteMark (body ++ quoteMark :: rest) =
      .ok ⟨body.length + 1, some (.string, .string (unescape body))⟩ := by
  have hgap : isGap quoteMark = false := by decide
  have hslash : quoteMark ≠ slash := by decide
  simp only [piece, hgap, hslash, closing?_append hbody, Bool.false_eq_true, if_false, false_and,
    if_true, Nat.add_sub_cancel, List.take_left']

lemma piece_sign {s : Sign} {b : UInt8} {w rest : Bytes} (hs : s.text = b :: w)
    (hends : (Pattern.sign s).Ends rest) (hcomment : ¬ StartsComment (b :: (w ++ rest))) :
    piece b (w ++ rest) = .ok ⟨w.length, some (.sign s, .nil)⟩ := by
  obtain ⟨hgap, hquote, hdigit, hletter⟩ := sign_facts hs
  have htext : b :: (w ++ rest) = s.text ++ rest := by rw [hs]; rfl
  have hfront : Sign.front? (b :: (w ++ rest)) = some s := by
    rw [htext]
    exact Sign.front?_of_longest (List.prefix_append _ _) hends
  rw [startsComment_cons] at hcomment
  simp only [piece, hgap, hcomment, hquote, hdigit, hletter, hfront, Bool.false_eq_true, if_false,
    hs, List.length_cons, Nat.add_sub_cancel]

end Scan

end LoxScript
