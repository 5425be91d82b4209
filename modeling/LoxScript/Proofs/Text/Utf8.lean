import Mathlib.Tactic.Lemma
import Mathlib.Tactic.SplitIfs
import LoxScript.Text.Glyph

/-!
# Reading characters is the inverse of encoding them

`Encodes` says by its number which one to four bytes a character has.  A character stands at the
front of a text for `Glyph.front?` exactly when its bytes do.  So no reading of a text loses a byte,
and a text that is made of characters is read as these.
-/

namespace LoxScript.Glyph

/-! ### The bytes of a character -/

/-- The bytes encode the character: seven bits of its number in one byte, and above that six bits in
every byte but the first. -/
inductive Encodes : Bytes → Char → Prop
  | one {a : UInt8} {c : Char} :
      c.toNat < 0x80 → a.toNat = c.toNat → Encodes [a] c
  | two {a b : UInt8} {c : Char} :
      0x80 ≤ c.toNat → c.toNat < 0x800 → a.toNat = 0xC0 + c.toNat / 64 →
        b.toNat = 0x80 + c.toNat % 64 → Encodes [a, b] c
  | three {a b d : UInt8} {c : Char} :
      0x800 ≤ c.toNat → c.toNat < 0x10000 → a.toNat = 0xE0 + c.toNat / 4096 →
        b.toNat = 0x80 + c.toNat / 64 % 64 → d.toNat = 0x80 + c.toNat % 64 → Encodes [a, b, d] c
  | four {a b d e : UInt8} {c : Char} :
      0x10000 ≤ c.toNat → a.toNat = 0xF0 + c.toNat / 262144 →
        b.toNat = 0x80 + c.toNat / 4096 % 64 → d.toNat = 0x80 + c.toNat / 64 % 64 →
          e.toNat = 0x80 + c.toNat % 64 → Encodes [a, b, d, e] c

lemma toNat_valid (c : Char) : c.toNat < 0xD800 ∨ 0xDFFF < c.toNat ∧ c.toNat < 0x110000 :=
  c.valid

lemma toNat_ofNat_of_valid {n : Nat} (h : n < 0xD800 ∨ 0xDFFF < n ∧ n < 0x110000) :
    (Char.ofNat n).toNat = n := by
  rw [Char.ofNat, dif_pos h]
  rfl

lemma encodes_utf8EncodeChar (c : Char) : Encodes (String.utf8EncodeChar c) c := by
  have hvalid := toNat_valid c
  have hval : c.val.toNat = c.toNat := rfl
  have hbyte : ∀ {m n : Nat}, m = n → n < 256 → (UInt8.ofNat m).toNat = n := by
    intro m n hmn hn
    rw [UInt8.toNat_ofNat', hmn, Nat.mod_eq_of_lt hn]
  simp only [String.utf8EncodeChar, hval]
  split_ifs with h₁ h₂ h₃
  · exact .one (by omega) (hbyte rfl (by omega))
  · exact .two (by omega) (by omega) (hbyte (by omega) (by omega)) (hbyte (by omega) (by omega))
  · exact .three (by omega) (by omega) (hbyte (by omega) (by omega)) (hbyte (by omega) (by omega))
      (hbyte (by omega) (by omega))
  · exact .four (by omega) (hbyte (by omega) (by omega)) (hbyte (by omega) (by omega))
      (hbyte (by omega) (by omega)) (hbyte (by omega) (by omega))

/-- A character has one encoding. -/
lemma Encodes.eq {w w' : Bytes} {c : Char} (h : Encodes w c) (h' : Encodes w' c) : w = w' := by
  -- Encodings of two lengths have their numbers in ranges that do not meet.
  cases h <;> cases h' <;>
    first
    | omega
    | simp only [List.cons.injEq, ← UInt8.toNat_inj, and_true]; omega

/-- A byte of a character has the character's number, or it is outside of ASCII. -/
lemma Encodes.toNat_eq_or_le {w : Bytes} {c : Char} (h : Encodes w c) {b : UInt8} (hb : b ∈ w) :
    b.toNat = c.toNat ∨ 0x80 ≤ b.toNat := by
  cases h with
  | one hc ha => exact .inl (List.mem_singleton.1 hb ▸ ha)
  | two | three | four =>
    simp only [List.mem_cons, List.not_mem_nil, or_false] at hb
    right
    rcases hb with rfl | rfl | rfl | rfl <;> omega

/-! ### The character at the front of a text -/

lemma isContinuation_iff {b : UInt8} :
    isContinuation b = true ↔ 0x80 ≤ b.toNat ∧ b.toNat < 0xC0 := by
  simp [isContinuation, UInt8.le_iff_toNat_le, UInt8.lt_iff_toNat_lt]

lemma front?_of_encodes {w : Bytes} {c : Char} (h : Encodes w c) (rest : Bytes) :
    front? (w ++ rest) = some c := by
  have hvalid := toNat_valid c
  have hself := Char.ofNat_toNat c
  cases h with
  | one hc ha =>
    simp only [List.cons_append, front?, UInt8.lt_iff_toNat_lt, UInt8.reduceToNat, ha]
    rw [if_pos hc, hself]
  | two hlow hhigh ha hb =>
    have hnumber : (0xC0 + c.toNat / 64) % 32 * 64 + (0x80 + c.toNat % 64) % 64 = c.toNat := by
      omega
    simp only [List.cons_append, front?, UInt8.lt_iff_toNat_lt, UInt8.reduceToNat, payload,
      isContinuation_iff, ha, hb, hnumber]
    rw [if_neg (by omega), if_neg (by omega), if_pos (by omega), if_pos (by omega), hself]
  | three hlow hhigh ha hb hd =>
    have hnumber : (0xE0 + c.toNat / 4096) % 16 * 4096 + (0x80 + c.toNat / 64 % 64) % 64 * 64 +
        (0x80 + c.toNat % 64) % 64 = c.toNat := by omega
    simp only [List.cons_append, front?, UInt8.lt_iff_toNat_lt, UInt8.reduceToNat, payload,
      Bool.and_eq_true, isContinuation_iff, ha, hb, hd, hnumber, decide_eq_true_eq,
      Bool.not_eq_true', Bool.and_eq_false_iff, decide_eq_false_iff_not]
    rw [if_neg (by omega), if_neg (by omega), if_neg (by omega), if_pos (by omega),
      if_pos (by omega), hself]
  | four hlow ha hb hd he =>
    have hnumber : (0xF0 + c.toNat / 262144) % 8 * 262144 +
        (0x80 + c.toNat / 4096 % 64) % 64 * 4096 + (0x80 + c.toNat / 64 % 64) % 64 * 64 +
          (0x80 + c.toNat % 64) % 64 = c.toNat := by omega
    simp only [List.cons_append, front?, UInt8.lt_iff_toNat_lt, UInt8.reduceToNat, payload,
      Bool.and_eq_true, isContinuation_iff, ha, hb, hd, he, hnumber, decide_eq_true_eq]
    rw [if_neg (by omega), if_neg (by omega), if_neg (by omega), if_neg (by omega),
      if_pos (by omega), if_pos (by omega), hself]

lemma encodes_of_front? {text : Bytes} {c : Char} (h : front? text = some c) :
    ∃ w rest, text = w ++ rest ∧ Encodes w c := by
  revert h
  -- The four branches that give a character; the checks in each bound its number from both sides.
  fun_cases front? text with
  | case2 a rest ha =>
    rintro ⟨⟩
    simp only [UInt8.lt_iff_toNat_lt, UInt8.reduceToNat] at ha
    have hn := toNat_ofNat_of_valid (n := a.toNat) (by omega)
    exact ⟨[a], rest, rfl, .one (by omega) (by omega)⟩
  | case4 a ha₁ ha₂ ha₃ b rest hb =>
    rintro ⟨⟩
    simp only [UInt8.lt_iff_toNat_lt, UInt8.reduceToNat] at ha₁ ha₂ ha₃
    rw [isContinuation_iff] at hb
    simp only [payload]
    have hn := toNat_ofNat_of_valid (n := a.toNat % 32 * 64 + b.toNat % 64) (by omega)
    exact ⟨[a, b], rest, rfl, .two (by omega) (by omega) (by omega) (by omega)⟩
  | case7 a ha₁ ha₂ ha₃ ha₄ b d rest v h =>
    rintro ⟨⟩
    simp only [UInt8.lt_iff_toNat_lt, UInt8.reduceToNat] at ha₁ ha₂ ha₃ ha₄
    simp only [Bool.and_eq_true, isContinuation_iff, decide_eq_true_eq, Bool.not_eq_true',
      Bool.and_eq_false_iff, decide_eq_false_iff_not] at h
    have hv : v = a.toNat % 16 * 4096 + b.toNat % 64 * 64 + d.toNat % 64 := rfl
    have hn := toNat_ofNat_of_valid (n := v) (by omega)
    exact ⟨[a, b, d], rest, rfl, .three (by omega) (by omega) (by omega) (by omega) (by omega)⟩
  | case10 a ha₁ ha₂ ha₃ ha₄ ha₅ b d e rest v h =>
    rintro ⟨⟩
    simp only [UInt8.lt_iff_toNat_lt, UInt8.reduceToNat] at ha₁ ha₂ ha₃ ha₄ ha₅
    simp only [Bool.and_eq_true, isContinuation_iff, decide_eq_true_eq] at h
    have hv : v = a.toNat % 8 * 262144 + b.toNat % 64 * 4096 + d.toNat % 64 * 64 + e.toNat % 64 :=
      rfl
    have hn := toNat_ofNat_of_valid (n := v) (by omega)
    exact ⟨[a, b, d, e], rest, rfl, .four (by omega) (by omega) (by omega) (by omega) (by omega)⟩
  | _ => nofun

lemma eq_append_of_front? {text : Bytes} {c : Char} (h : front? text = some c) :
    ∃ rest, text = String.utf8EncodeChar c ++ rest := by
  obtain ⟨w, rest, rfl, hw⟩ := encodes_of_front? h
  exact ⟨rest, by rw [hw.eq (encodes_utf8EncodeChar c)]⟩

/-! ### All of a text -/

lemma decodeFrom_length (w rest : Bytes) : decodeFrom w.length (w ++ rest) = decode rest := by
  induction w with
  | nil => rfl
  | cons a w ih => exact ih

lemma decode_utf8EncodeChar_append (c : Char) (rest : Bytes) :
    decode (String.utf8EncodeChar c ++ rest) = .char c :: decode rest := by
  have hfront := front?_of_encodes (encodes_utf8EncodeChar c) rest
  have hlength := String.length_utf8EncodeChar c
  obtain ⟨a, w, hw⟩ := List.exists_cons_of_length_pos (hlength ▸ c.utf8Size_pos)
  have hsize : c.utf8Size - 1 = w.length := by
    rw [← hlength, hw, List.length_cons, Nat.add_sub_cancel]
  rw [hw] at hfront
  rw [hw, List.cons_append, decode, decodeFrom, ← List.cons_append, hfront]
  exact congrArg (Glyph.char c :: ·) (hsize ▸ decodeFrom_length w rest)

/-- Characters are read as they were encoded. -/
theorem decode_flatMap_utf8EncodeChar (cs : List Char) :
    decode (cs.flatMap String.utf8EncodeChar) = cs.map .char := by
  induction cs with
  | nil => rfl
  | cons c cs ih => rw [List.flatMap_cons, decode_utf8EncodeChar_append, ih, List.map_cons]

lemma flatMap_encode_decodeFrom (skip : Nat) (text : Bytes) :
    (decodeFrom skip text).flatMap encode = text.drop skip := by
  fun_induction decodeFrom skip text with
  | case1 skip => rw [List.drop_nil, List.flatMap_nil]
  | case2 skip a rest ih => exact ih
  | case3 a rest c hfront ih =>
    obtain ⟨rest', h⟩ := eq_append_of_front? hfront
    have hdrop : rest.drop (c.utf8Size - 1) = rest' := by
      rw [← List.drop_succ_cons (a := a), Nat.sub_add_cancel c.utf8Size_pos, h,
        ← String.length_utf8EncodeChar, List.drop_left]
    rw [List.flatMap_cons, ih, hdrop, List.drop_zero, h, encode]
  | case4 a rest hfront ih =>
    rw [List.flatMap_cons, ih, List.drop_zero, encode, List.singleton_append, List.drop_zero]

/-- No byte of a text is lost, whether it belongs to a character or not. -/
theorem flatMap_encode_decode (text : Bytes) : (decode text).flatMap encode = text :=
  flatMap_encode_decodeFrom 0 text

end LoxScript.Glyph
