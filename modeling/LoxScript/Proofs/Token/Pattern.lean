import Mathlib.Computability.Language
import LoxScript.Token.Scan

/-!
# The patterns of tokens

A token is a sign, a word, a numeral or a string, and each of these is a regular set of texts.  This
file gives the four sets as languages, without saying how a text of them is found, and what a text
of each of them denotes.  The lemmas after that connect them with the functions that measure how far
a token reaches.
-/

namespace LoxScript.Scan

open Computability

/-! ### The texts of a pattern -/

/-- The texts of a single byte that passes the test. -/
def byte (p : UInt8 → Bool) : Language UInt8 :=
  {w | ∃ b, p b = true ∧ w = [b]}

/-- Runs of at least one digit. -/
def digits : Language UInt8 :=
  byte Bytes.isDigit * (byte Bytes.isDigit)∗

/-- Points, each with digits after it. -/
def pointedDigits : Language UInt8 :=
  (byte (· = Numeral.point) * digits)∗

/-- What stands between two quotes: a quote only after a backslash, and after a backslash any
byte. -/
def bodies : Language UInt8 :=
  (byte (fun b => b ≠ quoteMark ∧ b ≠ backslash) + byte (· = backslash) * byte fun _ => true)∗

/-- The patterns of tokens. -/
inductive Pattern where
  | sign (s : Sign)
  | word
  | numeral
  | string

namespace Pattern

/-- The texts of a pattern. -/
def texts : Pattern → Language UInt8
  | sign s => {s.text}
  | word => byte Bytes.isLetter * (byte isWordByte)∗
  | numeral => digits * pointedDigits
  | string => byte (· = quoteMark) * bodies * byte (· = quoteMark)

end Pattern

/-- What the body of a string stands for.  A quote, a backslash, an `n` and a `t` after a backslash
stand for a quote, a backslash, a line break and a tab; any other byte keeps its backslash. -/
inductive StandsFor : Bytes → Bytes → Prop
  | nil : StandsFor [] []
  | plain {b : UInt8} {body value : Bytes} :
      b ≠ backslash → StandsFor body value → StandsFor (b :: body) (b :: value)
  | quote {body value : Bytes} :
      StandsFor body value → StandsFor (backslash :: quoteMark :: body) (quoteMark :: value)
  | backslash {body value : Bytes} :
      StandsFor body value → StandsFor (backslash :: backslash :: body) (backslash :: value)
  | newline {body value : Bytes} :
      StandsFor body value →
        StandsFor (backslash :: Bytes.ofAscii 'n' :: body) (Bytes.newline :: value)
  | tab {body value : Bytes} :
      StandsFor body value →
        StandsFor (backslash :: Bytes.ofAscii 't' :: body) (Bytes.ofAscii '\t' :: value)
  | other {e : UInt8} {body value : Bytes} :
      e ∉ [quoteMark, backslash, Bytes.ofAscii 'n', Bytes.ofAscii 't'] →
        StandsFor body value → StandsFor (backslash :: e :: body) (backslash :: e :: value)

/-- The kind and the literal of a token with the given text.  A numeral may denote no number; then
there is no token. -/
inductive Pattern.Denotes : Pattern → Bytes → Kind → Literal → Prop
  | sign (s : Sign) : Denotes (.sign s) s.text (.sign s) .nil
  | word {w : Bytes} : w ∈ word.texts → Denotes .word w (.ofWord w) .nil
  | numeral {w : Bytes} {x : Float} :
      w ∈ numeral.texts → Numeral.value? w = some x → Denotes .numeral w .number (.number x)
  | string {body value : Bytes} :
      body ∈ bodies → StandsFor body value →
        Denotes .string (quoteMark :: (body ++ [quoteMark])) .string (.string value)

/-! ### Members of the languages -/

/-- A text of bytes that each pass the test. -/
lemma mem_kstar_byte {p : UInt8 → Bool} {w : Bytes} :
    w ∈ (byte p)∗ ↔ ∀ b ∈ w, p b = true := by
  rw [Language.mem_kstar]
  constructor
  · rintro ⟨L, rfl, hL⟩ b hb
    obtain ⟨y, hy, hby⟩ := List.mem_flatten.1 hb
    obtain ⟨c, hc, rfl⟩ := hL y hy
    rw [List.mem_singleton.1 hby]
    exact hc
  · intro hw
    refine ⟨w.map ([·]), (List.flatMap_singleton' w).symm, fun y hy => ?_⟩
    obtain ⟨b, hb, rfl⟩ := List.mem_map.1 hy
    exact ⟨b, hw b hb, rfl⟩

/-- A byte and further bytes that each pass a test. -/
lemma mem_byte_mul_kstar {p q : UInt8 → Bool} {w : Bytes} :
    w ∈ byte p * (byte q)∗ ↔ ∃ b u, w = b :: u ∧ p b = true ∧ ∀ c ∈ u, q c = true := by
  rw [Language.mem_mul]
  constructor
  · rintro ⟨_, ⟨b, hb, rfl⟩, u, hu, rfl⟩
    exact ⟨b, u, rfl, hb, mem_kstar_byte.1 hu⟩
  · rintro ⟨b, u, rfl, hb, hu⟩
    exact ⟨[b], ⟨b, hb, rfl⟩, u, mem_kstar_byte.2 hu, rfl⟩

lemma mem_texts_word {w : Bytes} :
    w ∈ Pattern.word.texts ↔
      ∃ b u, w = b :: u ∧ Bytes.isLetter b = true ∧ ∀ c ∈ u, isWordByte c = true :=
  mem_byte_mul_kstar

lemma mem_digits {w : Bytes} : w ∈ digits ↔ w ≠ [] ∧ ∀ b ∈ w, Bytes.isDigit b = true := by
  rw [digits, mem_byte_mul_kstar]
  constructor
  · rintro ⟨b, u, rfl, hb, hu⟩
    refine ⟨List.cons_ne_nil _ _, fun c hc => ?_⟩
    rcases List.mem_cons.1 hc with rfl | hc
    · exact hb
    · exact hu c hc
  · rintro ⟨hne, hw⟩
    obtain ⟨b, u, rfl⟩ := List.exists_cons_of_ne_nil hne
    exact ⟨b, u, rfl, hw b List.mem_cons_self, fun c hc => hw c (List.mem_cons_of_mem b hc)⟩

/-- A text with points is empty, or starts with a point and digits. -/
@[elab_as_elim]
lemma pointedDigits_induction {P : Bytes → Prop} {w : Bytes} (h : w ∈ pointedDigits) (nil : P [])
    (point : ∀ d ∈ digits, ∀ u ∈ pointedDigits, P u → P (Numeral.point :: (d ++ u))) : P w := by
  obtain ⟨L, rfl, hL⟩ := Language.mem_kstar.1 h
  induction L with
  | nil => exact nil
  | cons y L ih =>
    have hL' : ∀ z ∈ L, z ∈ byte (· = Numeral.point) * digits :=
      fun z hz => hL z (List.mem_cons_of_mem y hz)
    have htail : L.flatten ∈ pointedDigits := Language.join_mem_kstar hL'
    obtain ⟨_, ⟨b, hb, rfl⟩, d, hd, rfl⟩ := Language.mem_mul.1 (hL y List.mem_cons_self)
    obtain rfl : b = Numeral.point := by simpa using hb
    exact point d hd L.flatten htail (ih hL' htail)

/-- A body is empty, or starts with a byte that stands alone or with a pair. -/
@[elab_as_elim]
lemma bodies_induction {P : Bytes → Prop} {w : Bytes} (h : w ∈ bodies) (nil : P [])
    (plain : ∀ b u, b ≠ quoteMark → b ≠ backslash → P u → P (b :: u))
    (pair : ∀ e u, P u → P (backslash :: e :: u)) : P w := by
  obtain ⟨L, rfl, hL⟩ := Language.mem_kstar.1 h
  induction L with
  | nil => exact nil
  | cons y L ih =>
    have hL' := fun z hz => hL z (List.mem_cons_of_mem y hz)
    have htail : P L.flatten := ih hL' (Language.join_mem_kstar hL')
    rcases hL y List.mem_cons_self with ⟨b, hb, rfl⟩ | hpair
    · obtain ⟨hquote, hbackslash⟩ : b ≠ quoteMark ∧ b ≠ backslash := by simpa using hb
      exact plain b L.flatten hquote hbackslash htail
    · obtain ⟨_, ⟨b, hb, rfl⟩, _, ⟨e, -, rfl⟩, rfl⟩ := Language.mem_mul.1 hpair
      obtain rfl : b = backslash := by simpa using hb
      exact pair e L.flatten htail

lemma nil_mem_bodies : [] ∈ bodies :=
  Language.nil_mem_kstar _

/-- A text of the star of a language can be extended at its front. -/
lemma append_mem_kstar {l : Language UInt8} {v w : Bytes} (hv : v ∈ l) (hw : w ∈ l∗) :
    v ++ w ∈ l∗ := by
  have hstar : ∀ u ∈ l * l∗, u ∈ l∗ := fun u hu => (mul_kstar_le_kstar : l * l∗ ≤ l∗) hu
  exact hstar _ (Language.append_mem_mul hv hw)

lemma cons_mem_bodies {b : UInt8} {w : Bytes} (hquote : b ≠ quoteMark) (hbackslash : b ≠ backslash)
    (hw : w ∈ bodies) : b :: w ∈ bodies := by
  refine append_mem_kstar (v := [b]) (.inl ⟨b, ?_, rfl⟩) hw
  simp [hquote, hbackslash]

lemma pair_mem_bodies (e : UInt8) {w : Bytes} (hw : w ∈ bodies) : backslash :: e :: w ∈ bodies := by
  refine append_mem_kstar (v := [backslash, e]) (.inr ?_) hw
  exact Language.mem_mul.2 ⟨[backslash], ⟨backslash, by simp, rfl⟩, [e], ⟨e, rfl, rfl⟩, rfl⟩

lemma mem_texts_string {w : Bytes} :
    w ∈ Pattern.string.texts ↔ ∃ body ∈ bodies, w = quoteMark :: (body ++ [quoteMark]) := by
  constructor
  · intro h
    obtain ⟨_, hopen, _, ⟨b, hb, rfl⟩, rfl⟩ := Language.mem_mul.1 h
    obtain ⟨_, ⟨a, ha, rfl⟩, body, hbody, rfl⟩ := Language.mem_mul.1 hopen
    obtain rfl : a = quoteMark := by simpa using ha
    obtain rfl : b = quoteMark := by simpa using hb
    exact ⟨body, hbody, rfl⟩
  · rintro ⟨body, hbody, rfl⟩
    refine Language.mem_mul.2 ⟨quoteMark :: body, ?_, [quoteMark], ⟨_, by simp, rfl⟩, rfl⟩
    exact Language.mem_mul.2 ⟨[quoteMark], ⟨_, by simp, rfl⟩, body, hbody, rfl⟩

end LoxScript.Scan
