import LoxScript.Proofs.Execution.Result
import LoxScript.Proofs.Grammar.Succession

/-!
# Arithmetic without trees

The value of a calculation can be told from its tokens as they stand in a row.  The operation that
is done last is the last `+` or `-` between two operands and outside of all parentheses, or if there
is none the last `*` or `/`.  What is on its two sides is worked out in the same way.  Without such
an operation there is a sign to be applied, or parentheses to be removed, or a number.

Reading goes through the tokens from the left and from loose operators to tight ones, and the tree
it makes is evaluated afterwards.  Both ways give the same value: where the row is cut, the tree has
its root, because the part to the right of the last cut has no further cut at the same level.
-/

namespace LoxScript.Arithmetic

open Grammar

/-! ### Rows of tokens -/

/-- The kinds of the operators that stand between two operands. -/
abbrev operators : List Kind :=
  Level.term.operators ++ Level.factor.operators

/-- The rows of tokens that are calculations, however they may be grouped. -/
inductive Formed : List Token → Prop
  | number {t : Token} {x : Float} : t.kind = .number → t.literal = .number x → Formed [t]
  | binary {left right : List Token} {operator : Token} :
      Formed left → operator.kind ∈ operators → Formed right → Formed (left ++ operator :: right)
  | negation {minus : Token} {right : List Token} :
      minus.kind = .sign .minus → Formed right → Formed (minus :: right)
  | parentheses {opening closing : Token} {inner : List Token} :
      opening.kind = .sign .leftParen → Formed inner → closing.kind = .sign .rightParen →
        Formed (opening :: (inner ++ [closing]))

/-- What a token adds to the number of open parentheses. -/
def weight (t : Token) : Int :=
  if t.kind = .sign .leftParen then 1 else if t.kind = .sign .rightParen then -1 else 0

/-- How many more parentheses are opened than closed. -/
def nesting : List Token → Int
  | [] => 0
  | t :: ts => weight t + nesting ts

/-- Does an operand end with the last of the tokens?  An operator that follows stands between two
operands; any other is a sign before its operand. -/
def endsOperand (ts : List Token) : Bool :=
  ts.getLast?.any fun t => t.kind ∈ [.number, .sign .rightParen]

/-- A row of tokens in two parts, with an operator between them. -/
structure Cut where
  left : List Token
  operator : Token
  right : List Token

/-- The cut is one of the given row, at an operator of the given kinds that stands between two
operands and outside of all parentheses. -/
structure Cut.At (c : Cut) (kinds : List Kind) (ts : List Token) : Prop where
  tokens_eq : ts = c.left ++ c.operator :: c.right
  kind_mem : c.operator.kind ∈ kinds
  outermost : nesting c.left = 0
  between : endsOperand c.left = true

/-- The last place at which the tokens can be cut, when those `before` come first. -/
def lastCut? (kinds : List Kind) (before : List Token) : List Token → Option Cut
  | [] => none
  | t :: rest =>
    (lastCut? kinds (before ++ [t]) rest).or
      (if t.kind ∈ kinds ∧ nesting before = 0 ∧ endsOperand before = true then
        some ⟨before, t, rest⟩
      else none)

/-- The place of the operation that is done last: an addition or a subtraction, if there is one. -/
def mainCut? (ts : List Token) : Option Cut :=
  (lastCut? Level.term.operators [] ts).or (lastCut? Level.factor.operators [] ts)

/-- The row cannot be cut at operators of these kinds. -/
def Uncut (kinds : List Kind) (ts : List Token) : Prop :=
  ∀ c : Cut, ¬ c.At kinds ts

section Rows

variable {ts us : List Token} {t : Token} {kinds : List Kind} {c : Cut}

@[simp] lemma nesting_nil : nesting [] = 0 := rfl

@[simp] lemma nesting_cons : nesting (t :: ts) = weight t + nesting ts := rfl

@[simp] lemma nesting_append : nesting (ts ++ us) = nesting ts + nesting us := by
  induction ts with
  | nil => exact (Int.zero_add _).symm
  | cons t ts ih => rw [List.cons_append, nesting_cons, nesting_cons, ih, Int.add_assoc]

lemma mem_operators_iff {k : Kind} :
    k ∈ operators ↔
      k = .sign .minus ∨ k = .sign .plus ∨ k = .sign .slash ∨ k = .sign .star := by
  simp [operators, Level.operators, Level.signs]

lemma weight_operator (h : t.kind ∈ operators) : weight t = 0 := by
  rcases mem_operators_iff.1 h with h | h | h | h <;> simp [weight, h]

/-- An operand is the end of the row if it is the end of its last part. -/
lemma endsOperand_append (ts : List Token) (h : endsOperand us = true) :
    endsOperand (ts ++ us) = true := by
  rw [endsOperand, Option.any_eq_true] at h ⊢
  obtain ⟨t, hlast, hkind⟩ := h
  exact ⟨t, by rw [List.getLast?_append, hlast, Option.some_or], hkind⟩

/-- No operand ends with an operator. -/
lemma endsOperand_of_append_operator (ts : List Token) (ht : t.kind ∈ operators)
    (h : endsOperand (ts ++ t :: us) = true) : endsOperand us = true := by
  cases us with
  | nil =>
    rw [endsOperand, List.getLast?_append, List.getLast?_singleton, Option.some_or] at h
    rcases mem_operators_iff.1 ht with hkind | hkind | hkind | hkind <;> simp [hkind] at h
  | cons u us => simpa [endsOperand, List.getLast?_append, List.getLast?_cons] using h

/-- There is no operand before the first token, so a row is never cut there. -/
lemma exists_cons_of_endsOperand {operator : Token} {l r : List Token}
    (h : t :: ts = l ++ operator :: r) (hl : endsOperand l = true) :
    ∃ m, l = t :: m ∧ ts = m ++ operator :: r := by
  rcases List.cons_eq_append_iff.1 h with ⟨rfl, -⟩ | hcons
  · exact absurd hl Bool.false_ne_true
  · exact hcons

/-! ### Cuts -/

/-- A cut remains one when the row goes on to the right. -/
lemma Cut.At.append (h : c.At kinds ts) (us : List Token) :
    Cut.At ⟨c.left, c.operator, c.right ++ us⟩ kinds (ts ++ us) where
  tokens_eq := by simp [h.tokens_eq]
  kind_mem := h.kind_mem
  outermost := h.outermost
  between := h.between

/-- A cut remains one when more tokens come first, if they leave no parentheses open. -/
lemma Cut.At.after (h : c.At kinds us) (hts : nesting ts = 0) :
    Cut.At ⟨ts ++ c.left, c.operator, c.right⟩ kinds (ts ++ us) where
  tokens_eq := by simp [h.tokens_eq]
  kind_mem := h.kind_mem
  outermost := by simp [hts, h.outermost]
  between := endsOperand_append ts h.between

lemma Uncut.left (h : Uncut kinds (ts ++ us)) : Uncut kinds ts :=
  fun _ hc => h _ (hc.append us)

lemma Uncut.right (h : Uncut kinds (ts ++ us)) (hts : nesting ts = 0) : Uncut kinds us :=
  fun _ hc => h _ (hc.after hts)

/-- Up to and including the operator of a cut, no parentheses are left open. -/
lemma Cut.At.nesting_left (h : c.At kinds ts) (hkinds : kinds ⊆ operators) :
    nesting (c.left ++ [c.operator]) = 0 := by
  simp [h.outermost, weight_operator (hkinds h.kind_mem)]

/-- The search finds a cut after which there is no other, and finds none only if there is none among
the tokens that it goes through. -/
lemma lastCut?_spec (kinds : List Kind) (before ts : List Token) :
    (∀ c, lastCut? kinds before ts = some c →
      c.At kinds (before ++ ts) ∧
        ∀ d : Cut, d.At kinds (before ++ ts) → d.left.length ≤ c.left.length) ∧
    (lastCut? kinds before ts = none →
      ∀ d : Cut, d.At kinds (before ++ ts) → d.left.length < before.length) := by
  induction ts generalizing before with
  | nil =>
    refine ⟨fun c hc => absurd hc (Option.some_ne_none c).symm, fun _ d hd => ?_⟩
    have hlength := congrArg List.length hd.tokens_eq
    simp only [List.append_nil, List.length_append, List.length_cons] at hlength
    omega
  | cons t rest ih =>
    obtain ⟨hfound, hnone⟩ := ih (before ++ [t])
    rw [List.append_assoc, List.singleton_append] at hfound hnone
    rw [lastCut?]
    cases hlater : lastCut? kinds (before ++ [t]) rest with
    | some c =>
      rw [Option.some_or]
      exact ⟨fun d hd => Option.some.inj hd ▸ hfound c hlater, nofun⟩
    | none =>
      rw [Option.none_or]
      have hlast : ∀ d : Cut, d.At kinds (before ++ t :: rest) →
          d.left.length ≤ before.length := by
        intro d hd
        have hlt := hnone hlater d hd
        rw [List.length_append, List.length_singleton] at hlt
        exact Nat.le_of_lt_succ hlt
      split
      case isTrue hcut =>
        refine ⟨fun c hc => ?_, nofun⟩
        cases hc
        exact ⟨⟨rfl, hcut.1, hcut.2.1, hcut.2.2⟩, hlast⟩
      case isFalse hcut =>
        refine ⟨fun c hc => absurd hc (Option.some_ne_none c).symm, fun _ d hd => ?_⟩
        refine Nat.lt_of_le_of_ne (hlast d hd) fun hlength => hcut ?_
        -- A cut with just the tokens before on its left would be at this token.
        obtain ⟨hleft, hright⟩ := List.append_inj hd.tokens_eq hlength.symm
        obtain ⟨rfl, -⟩ := List.cons.inj hright
        exact hleft ▸ ⟨hd.kind_mem, hd.outermost, hd.between⟩

lemma lastCut?_eq_none_iff : lastCut? kinds [] ts = none ↔ Uncut kinds ts := by
  constructor
  · intro h c hc
    exact Nat.not_lt_zero _ ((lastCut?_spec kinds [] ts).2 h c hc)
  · intro h
    cases hcut : lastCut? kinds [] ts with
    | none => rfl
    | some c => exact absurd ((lastCut?_spec kinds [] ts).1 c hcut).1 (h c)

lemma at_of_lastCut? (h : lastCut? kinds [] ts = some c) : c.At kinds ts :=
  ((lastCut?_spec kinds [] ts).1 c h).1

/-- To the right of the last cut there is no other. -/
lemma uncut_right_of_lastCut? (h : lastCut? kinds [] ts = some c) (hkinds : kinds ⊆ operators) :
    Uncut kinds c.right := by
  obtain ⟨hc, hlast⟩ := (lastCut?_spec kinds [] ts).1 c h
  intro d hd
  have htokens : [] ++ ts = c.left ++ [c.operator] ++ c.right := by
    rw [hc.tokens_eq, List.append_cons]
  have hlater := hd.after (hc.nesting_left hkinds)
  rw [← htokens] at hlater
  have hle := hlast _ hlater
  simp only [List.length_append, List.length_singleton] at hle
  omega

lemma mainCut?_cases (h : mainCut? ts = some c) :
    lastCut? Level.term.operators [] ts = some c ∨
      Uncut Level.term.operators ts ∧ lastCut? Level.factor.operators [] ts = some c := by
  rw [mainCut?, Option.or_eq_some_iff, lastCut?_eq_none_iff] at h
  exact h

lemma mainCut?_eq_none_iff :
    mainCut? ts = none ↔ Uncut Level.term.operators ts ∧ Uncut Level.factor.operators ts := by
  rw [mainCut?, Option.or_eq_none_iff, lastCut?_eq_none_iff, lastCut?_eq_none_iff]

lemma at_of_mainCut? (h : mainCut? ts = some c) : c.At operators ts := by
  rcases mainCut?_cases h with hterm | ⟨-, hfactor⟩
  · have hc := at_of_lastCut? hterm
    exact { hc with kind_mem := List.mem_append_left _ hc.kind_mem }
  · have hc := at_of_lastCut? hfactor
    exact { hc with kind_mem := List.mem_append_right _ hc.kind_mem }

lemma Cut.At.length_lt (h : c.At kinds ts) :
    c.left.length < ts.length ∧ c.right.length < ts.length := by
  rw [h.tokens_eq]
  simp only [List.length_append, List.length_cons]
  omega

/-! ### Cuts of calculations -/

namespace Formed

lemma endsOperand (h : Formed ts) : endsOperand ts = true := by
  induction h with
  | number hkind _ => simp [Arithmetic.endsOperand, hkind]
  | @binary left right operator _ _ _ _ ihr =>
    rw [List.append_cons]
    exact endsOperand_append (left ++ [operator]) ihr
  | @negation minus right _ _ ih => exact endsOperand_append [minus] ih
  | @parentheses opening closing inner _ _ hclosing _ =>
    exact endsOperand_append (opening :: inner) (by simp [Arithmetic.endsOperand, hclosing])

/-- All parentheses of a calculation are closed. -/
lemma nesting_eq_zero (h : Formed ts) : nesting ts = 0 := by
  induction h with
  | number hkind _ => simp [weight, hkind]
  | binary _ hoperator _ ihl ihr => simp [ihl, ihr, weight_operator hoperator]
  | negation hminus _ ih => simp [ih, weight, hminus]
  | parentheses hopening _ hclosing ih => simp [ih, weight, hopening, hclosing]

/-- No part at the front of a calculation closes more parentheses than it opens. -/
lemma nesting_nonneg (h : Formed ts) {l : List Token} (hl : l <+: ts) : 0 ≤ nesting l := by
  induction h generalizing l with
  | number hkind _ =>
    rcases List.prefix_cons_iff.1 hl with rfl | ⟨m, rfl, hm⟩
    · exact Int.le_refl 0
    · simp [List.prefix_nil.1 hm, weight, hkind]
  | @binary left right operator hleft hoperator _ ihl ihr =>
    obtain ⟨others, hothers⟩ := hl
    rcases List.append_eq_append_iff.1 hothers with ⟨m, rfl, -⟩ | ⟨m, rfl, hm⟩
    · exact ihl (List.prefix_append l m)
    · rcases List.prefix_cons_iff.1 ⟨others, hm.symm⟩ with rfl | ⟨n, rfl, hn⟩
      · simp [hleft.nesting_eq_zero]
      · simp [hleft.nesting_eq_zero, weight_operator hoperator, ihr hn]
  | negation hminus _ ih =>
    rcases List.prefix_cons_iff.1 hl with rfl | ⟨m, rfl, hm⟩
    · exact Int.le_refl 0
    · simp [weight, hminus, ih hm]
  | parentheses hopening hinner hclosing ih =>
    rcases List.prefix_cons_iff.1 hl with rfl | ⟨m, rfl, hm⟩
    · exact Int.le_refl 0
    · rcases List.prefix_concat_iff.1 hm with rfl | hm
      · simp [weight, hopening, hclosing, hinner.nesting_eq_zero]
      · have hnonneg := ih hm
        simp only [nesting_cons, weight, if_pos hopening]
        omega

/-- Both sides of a cut of a calculation are calculations. -/
lemma of_cut (h : Formed ts) (hc : c.At operators ts) : Formed c.left ∧ Formed c.right := by
  obtain ⟨l, operator, r⟩ := c
  obtain ⟨htokens, hoperator, houtermost, hbetween⟩ := hc
  dsimp only at htokens hoperator houtermost hbetween ⊢
  induction h generalizing l r with
  | number _ _ =>
    obtain ⟨m, -, hm⟩ := exists_cons_of_endsOperand htokens hbetween
    exact absurd hm.symm (List.append_ne_nil_of_right_ne_nil _ (List.cons_ne_nil _ _))
  | @binary left right o hleft ho hright ihl ihr =>
    -- The cut is at this operator, or within the operand on its right or on its left.
    rcases List.append_eq_append_iff.1 htokens with ⟨m, rfl, hm⟩ | ⟨m, rfl, hm⟩
    · rcases List.cons_eq_append_iff.1 hm with ⟨rfl, hhere⟩ | ⟨n, rfl, rfl⟩
      · obtain ⟨rfl, rfl⟩ := List.cons.inj hhere
        rw [List.append_nil]
        exact ⟨hleft, hright⟩
      · have hinner : nesting n = 0 := by
          simpa [hleft.nesting_eq_zero, weight_operator ho] using houtermost
        obtain ⟨hn, hr⟩ := ihr n r rfl hinner (endsOperand_of_append_operator left ho hbetween)
        exact ⟨.binary hleft ho hn, hr⟩
    · rcases List.cons_eq_append_iff.1 hm with ⟨rfl, hhere⟩ | ⟨n, rfl, rfl⟩
      · obtain ⟨rfl, rfl⟩ := List.cons.inj hhere
        rw [List.append_nil] at hleft
        exact ⟨hleft, hright⟩
      · obtain ⟨hl, hn⟩ := ihl l n rfl houtermost hbetween
        exact ⟨hl, .binary hn ho hright⟩
  | @negation minus right hminus _ ih =>
    obtain ⟨m, rfl, rfl⟩ := exists_cons_of_endsOperand htokens hbetween
    have hsign : minus.kind ∈ operators := mem_operators_iff.2 (.inl hminus)
    have hinner : nesting m = 0 := by simpa [weight_operator hsign] using houtermost
    obtain ⟨hm, hr⟩ := ih m r rfl hinner (endsOperand_of_append_operator [] hsign hbetween)
    exact ⟨.negation hminus hm, hr⟩
  | @parentheses opening closing inner hopening hinner hclosing _ =>
    exfalso
    obtain ⟨m, rfl, hm⟩ := exists_cons_of_endsOperand htokens hbetween
    -- The opening parenthesis is still open, as no part at the front of the inside closes it.
    have hpart : m <+: inner := by
      rcases List.prefix_concat_iff.1 ⟨_, hm.symm⟩ with rfl | hpart
      · simp at hm
      · exact hpart
    have hnonneg := hinner.nesting_nonneg hpart
    simp only [nesting_cons, weight, if_pos hopening] at houtermost
    omega

lemma kind_ne_endOfInput (h : Formed ts) : ∀ t ∈ ts, t.kind ≠ .endOfInput := by
  induction h with
  | number hkind _ => simp [hkind]
  | @binary left right operator _ hoperator _ ihl ihr =>
    have hkind : operator.kind ≠ .endOfInput := by
      intro hend
      rw [hend] at hoperator
      exact absurd hoperator (by decide)
    exact List.forall_mem_append.2 ⟨ihl, List.forall_mem_cons.2 ⟨hkind, ihr⟩⟩
  | negation hminus _ ih => exact List.forall_mem_cons.2 ⟨by simp [hminus], ih⟩
  | parentheses hopening _ hclosing ih =>
    refine List.forall_mem_cons.2 ⟨by simp [hopening], List.forall_mem_append.2 ⟨ih, ?_⟩⟩
    simp [hclosing]

end Formed

end Rows

/-! ### The value of a row -/

/-- The operation that an operator between two numbers stands for. -/
def operation? : Kind → Option (Float → Float → Float)
  | .sign .plus => some (· + ·)
  | .sign .minus => some (· - ·)
  | .sign .star => some (· * ·)
  | .sign .slash => some (· / ·)
  | _ => none

/-- The value of a row of tokens, worked out from the operation that is done last. -/
def rowValue? (ts : List Token) : Option Float :=
  match _ : mainCut? ts with
  | some c => do
    let f ← operation? c.operator.kind
    let x ← rowValue? c.left
    let y ← rowValue? c.right
    return f x y
  | none =>
    match ts with
    | [] => none
    | t :: rest =>
      if t.kind = .sign .minus then (rowValue? rest).map fun x => -x
      else if t.kind = .sign .leftParen then rowValue? rest.dropLast
      else
        match t.literal with
        | .number x => some x
        | _ => none
termination_by ts.length
decreasing_by
  · exact (at_of_mainCut? ‹_›).length_lt.1
  · exact (at_of_mainCut? ‹_›).length_lt.2
  · exact Nat.lt_succ_self _
  · rw [List.length_dropLast, List.length_cons]
    omega

section Value

variable {ts : List Token} {c : Cut} {x y : Float}

lemma rowValue?_of_cut {f : Float → Float → Float} (h : mainCut? ts = some c)
    (hf : operation? c.operator.kind = some f) (hx : rowValue? c.left = some x)
    (hy : rowValue? c.right = some y) : rowValue? ts = some (f x y) := by
  rw [rowValue?]
  split
  case h_1 d hd =>
    rw [h] at hd
    cases hd
    rw [hf, hx, hy]
    rfl
  case h_2 hnone =>
    rw [h] at hnone
    cases hnone

/-- Without an operation between operands, the first token decides. -/
lemma rowValue?_cons_of_uncut {t : Token} (h : mainCut? (t :: ts) = none) :
    rowValue? (t :: ts) =
      if t.kind = .sign .minus then (rowValue? ts).map fun x => -x
      else if t.kind = .sign .leftParen then rowValue? ts.dropLast
      else
        match t.literal with
        | .number x => some x
        | _ => none := by
  rw [rowValue?]
  split
  case h_1 d hd =>
    rw [h] at hd
    cases hd
  case h_2 => rfl

end Value

/-! ### Trees of calculations -/

/-- The tokens have a tree of the category, and its value is the given number whatever the variables
are. -/
def Computes (k : ExprCategory) (ts : List Token) (x : Float) : Prop :=
  ∃ T : ExprTree k, T.tokens = ts ∧ ∀ chain, eval T.value chain = .ok (.number x) chain

lemma exists_operation {k : Kind} (h : k ∈ operators) : ∃ f, operation? k = some f := by
  rcases mem_operators_iff.1 h with rfl | rfl | rfl | rfl <;> exact ⟨_, rfl⟩

/-- Two numbers are combined by the operation of the operator. -/
lemma applyBinary_of_operation? {operator : Token} {f : Float → Float → Float}
    (h : operation? operator.kind = some f) (x y : Float) :
    applyBinary operator (.number x) (.number y) = .ok (.number (f x y)) := by
  unfold operation? at h
  split at h
  case h_5 => cases h
  all_goals
    rename_i hkind
    cases h
    simp [applyBinary, applyNumeric, add, hkind]

namespace Computes

variable {ts left right : List Token} {operator : Token} {x y : Float} {l : Level}

lemma ofOperand (h : Computes l.operand ts x) : Computes (.level l) ts x := by
  obtain ⟨T, htokens, hvalue⟩ := h
  exact ⟨.ofOperand T, htokens, hvalue⟩

lemma binary {f : Float → Float → Float} (hleft : Computes (.level l) left x)
    (hkind : operator.kind ∈ l.operators) (hf : operation? operator.kind = some f)
    (hright : Computes l.operand right y) :
    Computes (.level l) (left ++ operator :: right) (f x y) := by
  obtain ⟨L, rfl, hL⟩ := hleft
  obtain ⟨R, rfl, hR⟩ := hright
  refine ⟨.binary L ⟨operator, hkind⟩ R, rfl, fun chain => ?_⟩
  rw [ExprTree.value, eval, bind_of_result_ok (hL chain), bind_of_result_ok (hR chain),
    applyBinary_of_operation? hf]
  rfl

lemma negation (hminus : operator.kind = .sign .minus) (h : Computes .unary ts x) :
    Computes .unary (operator :: ts) (-x) := by
  obtain ⟨T, rfl, hT⟩ := h
  have happly : applyUnary operator (.number x) = .ok (.number (-x)) := by
    simp [applyUnary, hminus]
  refine ⟨.unary ⟨operator, by simp [hminus]⟩ T, rfl, fun chain => ?_⟩
  rw [ExprTree.value, eval, bind_of_result_ok (hT chain), happly]
  rfl

lemma expression (h : Computes (.level .term) ts x) : Computes .expression ts x := by
  obtain ⟨T, rfl, hT⟩ := ofOperand (l := .equality) (ofOperand (l := .comparison) h)
  exact ⟨.expression (.ofEquality T), rfl, hT⟩

lemma parentheses {opening closing : Token} (hopening : opening.kind = .sign .leftParen)
    (h : Computes (.level .term) ts x) (hclosing : closing.kind = .sign .rightParen) :
    Computes .unary (opening :: (ts ++ [closing])) x := by
  obtain ⟨T, rfl, hT⟩ := h.expression
  refine ⟨.ofPrimary (.grouping ⟨opening, by simp [hopening]⟩ T ⟨closing, by simp [hclosing]⟩),
    rfl, fun chain => ?_⟩
  rw [ExprTree.value, ExprTree.value, eval, hT]

lemma number {t : Token} (hkind : t.kind = .number) (hliteral : t.literal = .number x) :
    Computes .unary [t] x := by
  refine ⟨.ofPrimary (.literal ⟨t, by simp [hkind]⟩), rfl, fun chain => ?_⟩
  have hvalue : literalValue t = .number x := by simp [literalValue, hkind, hliteral]
  rw [ExprTree.value, ExprTree.value, eval, hvalue]
  rfl

end Computes

/-- The tokens have trees with the value at all levels at which they cannot be cut further. -/
structure Graded (ts : List Token) (x : Float) : Prop where
  term : Computes (.level .term) ts x
  factor : Uncut Level.term.operators ts → Computes (.level .factor) ts x
  unary : Uncut Level.term.operators ts → Uncut Level.factor.operators ts → Computes .unary ts x

namespace Graded

variable {ts : List Token} {c : Cut} {x y : Float} {f : Float → Float → Float}

lemma of_unary (h : Computes .unary ts x) : Graded ts x where
  term := .ofOperand (l := .term) (.ofOperand (l := .factor) h)
  factor _ := .ofOperand (l := .factor) h
  unary _ _ := h

/-- The last sum or difference is the root of the tree. -/
lemma of_term_cut (hcut : lastCut? Level.term.operators [] ts = some c) (hleft : Graded c.left x)
    (hright : Graded c.right y) (hf : operation? c.operator.kind = some f) :
    Graded ts (f x y) := by
  have hc := at_of_lastCut? hcut
  have huncut := uncut_right_of_lastCut? hcut (List.subset_append_left _ _)
  have hterm := Computes.binary hleft.term hc.kind_mem hf (hright.factor huncut)
  rw [← hc.tokens_eq] at hterm
  exact ⟨hterm, fun h => absurd hc (h c), fun h => absurd hc (h c)⟩

/-- Without sums and differences, the last product or quotient is the root of the tree. -/
lemma of_factor_cut (hterm : Uncut Level.term.operators ts)
    (hcut : lastCut? Level.factor.operators [] ts = some c) (hleft : Graded c.left x)
    (hright : Graded c.right y) (hf : operation? c.operator.kind = some f) :
    Graded ts (f x y) := by
  have hc := at_of_lastCut? hcut
  have hkinds : Level.factor.operators ⊆ operators := List.subset_append_right _ _
  rw [hc.tokens_eq, List.append_cons] at hterm
  have hfactor := Computes.binary (hleft.factor hterm.left.left) hc.kind_mem hf
    (hright.unary (hterm.right (hc.nesting_left hkinds)) (uncut_right_of_lastCut? hcut hkinds))
  rw [← hc.tokens_eq] at hfactor
  exact ⟨.ofOperand (l := .term) hfactor, fun _ => hfactor, fun _ h => absurd hc (h c)⟩

end Graded

/-- A calculation has the value of its row, at each level at which it has a tree. -/
lemma Formed.exists_graded {ts : List Token} (h : Formed ts) :
    ∃ x, rowValue? ts = some x ∧ Graded ts x := by
  induction hn : ts.length using Nat.strongRecOn generalizing ts with
  | ind n ih =>
    subst hn
    cases hcut : mainCut? ts with
    | some c =>
      have hc := at_of_mainCut? hcut
      obtain ⟨hleft, hright⟩ := h.of_cut hc
      obtain ⟨x, hx, hgradedx⟩ := ih _ hc.length_lt.1 hleft rfl
      obtain ⟨y, hy, hgradedy⟩ := ih _ hc.length_lt.2 hright rfl
      obtain ⟨f, hf⟩ := exists_operation hc.kind_mem
      refine ⟨f x y, rowValue?_of_cut hcut hf hx hy, ?_⟩
      rcases mainCut?_cases hcut with hterm | ⟨huncut, hfactor⟩
      · exact .of_term_cut hterm hgradedx hgradedy hf
      · exact .of_factor_cut huncut hfactor hgradedx hgradedy hf
    | none =>
      obtain ⟨hterm, hfactor⟩ := mainCut?_eq_none_iff.1 hcut
      cases h with
      | @number t x hkind hliteral =>
        refine ⟨x, ?_, .of_unary (.number hkind hliteral)⟩
        rw [rowValue?_cons_of_uncut hcut]
        simp [hkind, hliteral]
      | @binary left right operator hleft hoperator hright =>
        -- A row with an operator between two calculations can be cut there.
        have hat : ∀ kinds, operator.kind ∈ kinds →
            Cut.At ⟨left, operator, right⟩ kinds (left ++ operator :: right) :=
          fun kinds hkind => ⟨rfl, hkind, hleft.nesting_eq_zero, hleft.endsOperand⟩
        rcases List.mem_append.1 hoperator with hkind | hkind
        · exact absurd (hat _ hkind) (hterm _)
        · exact absurd (hat _ hkind) (hfactor _)
      | @negation minus right hminus hright =>
        obtain ⟨x, hx, hgraded⟩ := ih _ (Nat.lt_succ_self _) hright rfl
        have hsign : nesting [minus] = 0 := by simp [weight, hminus]
        have huncut : ∀ kinds, Uncut kinds ([minus] ++ right) → Uncut kinds right :=
          fun _ hwhole => hwhole.right hsign
        have hunary := hgraded.unary (huncut _ hterm) (huncut _ hfactor)
        refine ⟨-x, ?_, .of_unary (hunary.negation hminus)⟩
        rw [rowValue?_cons_of_uncut hcut, if_pos hminus, hx]
        rfl
      | @parentheses opening closing inner hopening hinner hclosing =>
        have hshorter : inner.length < (opening :: (inner ++ [closing])).length := by
          rw [List.length_cons, List.length_append]
          omega
        obtain ⟨x, hx, hgraded⟩ := ih _ hshorter hinner rfl
        refine ⟨x, ?_, .of_unary (hgraded.term.parentheses hopening hclosing)⟩
        rw [rowValue?_cons_of_uncut hcut, List.dropLast_concat, hx]
        simp [hopening]

/-! ### Calculations as statements -/

/-- Calculations are grouped as the grammar says.  Every calculation that ends with a semicolon is
read, in either mode, as one statement, an expression.  Its evaluation succeeds, changes nothing and
gives the value that is worked out from the row of tokens by its last operation. -/
theorem calculation_has_value_of_row (mode : Mode) (ts tail : List Token) (semicolon : Token)
    (hts : Formed ts) (hsemicolon : semicolon.kind = .sign .semicolon)
    (htail : ∀ t ∈ tail.head?, t.kind = .endOfInput) :
    ∃ start e x, (readTokens mode (ts ++ semicolon :: tail)).result = .ok [.expression start e] ∧
      rowValue? ts = some x ∧ ∀ chain, eval e chain = .ok (.number x) chain := by
  obtain ⟨x, hx, hgraded⟩ := hts.exists_graded
  obtain ⟨T, rfl, hT⟩ := hgraded.term.expression
  let statement : StmtTree .exprStmt := .exprStmt T ⟨semicolon, by simp [hsemicolon]⟩
  let B : StmtTree .declarations := .more (.ofStatement (.ofExprStmt statement)) .nothing
  have hbody : body (T.tokens ++ semicolon :: tail) = B.tokens := by
    have hkinds : ∀ t ∈ T.tokens ++ [semicolon], t.kind ≠ .endOfInput :=
      List.forall_mem_append.2 ⟨hts.kind_ne_endOfInput, by simp [hsemicolon]⟩
    rw [List.append_cons, body_append_of_forall_ne hkinds, body_eq_nil htail]
    rfl
  exact ⟨_, T.value, x, result_readTokens_of_settled mode (B := B) hbody ⟨trivial, trivial⟩, hx, hT⟩

/-- In `6 - -2 / (1 + 1) - 3;` the last `-` is the operation that is done last, and the second one
is a sign. -/
theorem calculation_has_value_of_row_signed :
    let number : Float → Token := fun x => ⟨.number, [], .number x, 1⟩
    let sign : Sign → Token := fun s => ⟨.sign s, s.text, .nil, 1⟩
    let ts := [number 6, sign .minus, sign .minus, number 2, sign .slash, sign .leftParen, number 1,
      sign .plus, number 1, sign .rightParen, sign .minus, number 3]
    Formed ts ∧ ∃ start e,
      (readTokens .recovering (ts ++ [sign .semicolon])).result = .ok [.expression start e] ∧
        ∀ chain, eval e chain = .ok (.number (6 - -2 / (1 + 1) - 3)) chain := by
  intro number sign ts
  have hnumber : ∀ x, Formed [number x] := fun _ => .number rfl rfl
  have hsum : Formed [number 1, sign .plus, number 1] :=
    .binary (hnumber 1) (by decide) (hnumber 1)
  have hgroup : Formed [sign .leftParen, number 1, sign .plus, number 1, sign .rightParen] :=
    .parentheses rfl hsum rfl
  have hquotient : Formed [sign .minus, number 2, sign .slash, sign .leftParen, number 1,
      sign .plus, number 1, sign .rightParen] :=
    .binary (.negation rfl (hnumber 2)) (by decide) hgroup
  have hts : Formed ts :=
    .binary (.binary (hnumber 6) (by decide) hquotient) (by decide) (hnumber 3)
  obtain ⟨start, e, x, hread, hx, heval⟩ :=
    calculation_has_value_of_row .recovering ts [] (sign .semicolon) hts rfl (by simp)
  have hvalue : rowValue? ts = some (6 - -2 / (1 + 1) - 3) := by
    simp [ts, number, sign, rowValue?, mainCut?, lastCut?, Level.operators, Level.signs, nesting,
      weight, endsOperand, operation?]
  obtain rfl : x = 6 - -2 / (1 + 1) - 3 := Option.some.inj (hx.symm.trans hvalue)
  exact ⟨hts, start, e, hread, heval⟩

end LoxScript.Arithmetic
