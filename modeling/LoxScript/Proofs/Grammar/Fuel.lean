import LoxScript.Proofs.Grammar.Modes

/-!
# The bound on reading does not matter

The rules take a number that bounds the nesting and the length of what they read.  Between two steps
down the grammar at least one token is read for every three, so on a text of `n` tokens all bounds
from `3 n` and a little more on give the same answer: the bound is never reached, neither by a rule
that calls itself nor by a loop.

Two parsers are *steady* up to a length when they answer alike on all texts of that length.  A token
that is taken leaves a shorter text, so what comes after it has to be steady up to a lesser length
only, and that is what makes up for the step in the bound.
-/

namespace LoxScript.Grammar

open LoxScript.Parser

/-- The parsers answer alike on all texts of at most `n` tokens. -/
def Steady {α : Type} (n : Nat) (p q : Parser α) : Prop :=
  ∀ ⦃ts : List Token⦄, ts.length ≤ n → p ts = q ts

section Sequence

variable {α β : Type} {n : Nat} {p q : Parser α} {f g : α → Parser β}

lemma Steady.refl (n : Nat) (p : Parser α) : Steady n p p := fun _ _ => rfl

lemma Steady.mono {m : Nat} (h : Steady n p q) (hmn : m ≤ n) : Steady m p q :=
  fun _ hts => h (Nat.le_trans hts hmn)

lemma Steady.traced (rule : Rule) (h : Steady n p q) :
    Steady n (Parser.traced rule p) (Parser.traced rule q) := by
  intro ts hts
  unfold Parser.traced
  rw [h hts]

/-- What comes after a part works on what the part has left. -/
lemma bind_eq_bind {ts : List Token} (hp : p ts = q ts)
    (hf : ∀ a mid, (p ts).result = .ok (a, mid) → f a mid = g a mid) :
    (p >>= f) ts = (q >>= g) ts := by
  cases hresult : (p ts).result with
  | error failure =>
    rw [bind_of_error hresult, bind_of_error (hp ▸ hresult), hp]
  | ok r =>
    obtain ⟨a, mid⟩ := r
    rw [bind_of_ok hresult, bind_of_ok (hp ▸ hresult), hp, hf a mid hresult]

/-- The text does not get longer. -/
lemma Narrows.length_le (h : Narrows p) {ts mid : List Token} {a : α}
    (hresult : (p ts).result = .ok (a, mid)) : mid.length ≤ ts.length := by
  have hsuffix := h ts
  rw [left_of_ok hresult] at hsuffix
  exact hsuffix.length_le

lemma Steady.bind (hp : Steady n p q) (hnarrows : Narrows p) (hf : ∀ a, Steady n (f a) (g a)) :
    Steady n (p >>= f) (q >>= g) := by
  intro ts hts
  refine bind_eq_bind (hp hts) fun a mid hresult => hf a ?_
  exact Nat.le_trans (hnarrows.length_le hresult) hts

/-- A token that is taken leaves a shorter text. -/
lemma steady_accept?_bind {kinds : List Kind} {f g : Option Token → Parser β}
    (hnone : Steady n (f none) (g none))
    (hsome : ∀ t m, m < n → Steady m (f (some t)) (g (some t))) :
    Steady n (accept? kinds >>= f) (accept? kinds >>= g) := by
  intro ts hts
  refine bind_eq_bind rfl fun o mid hresult => ?_
  cases ts with
  | nil =>
    cases hresult
    exact hnone hts
  | cons t ts =>
    by_cases hkind : t.kind ∈ kinds
    · rw [result_accept?_cons hkind] at hresult
      cases hresult
      exact hsome t mid.length (Nat.lt_of_succ_le hts) (Nat.le_refl _)
    · rw [result_accept?_of_not_starts (mt starts_cons.1 hkind)] at hresult
      cases hresult
      exact hnone hts

lemma steady_expect_bind {kind : Kind} {what : Expected} {f g : Token → Parser β}
    (h : ∀ t m, m < n → Steady m (f t) (g t)) :
    Steady n (expect kind what >>= f) (expect kind what >>= g) := by
  intro ts hts
  refine bind_eq_bind rfl fun t mid hresult => ?_
  cases ts with
  | nil => cases hresult
  | cons u ts =>
    by_cases hkind : u.kind = kind
    · rw [result_expect_cons hkind] at hresult
      cases hresult
      exact h t mid.length (Nat.lt_of_succ_le hts) (Nat.le_refl _)
    · simp only [expect, hkind, if_false] at hresult
      cases hresult

lemma Steady.recovering (mode : Mode) {p q : Parser Stmt} (h : Steady n p q) :
    Steady n (recovering mode p) (recovering mode q) := by
  intro ts hts
  unfold Grammar.recovering
  rw [h hts]

end Sequence

/-! ### Expressions -/

section Expressions

variable {n fuel fuel' : Nat}

lemma steady_chain {operand operand' : Parser Expr} (operators : List Kind)
    (h : Steady n operand operand') (hnarrows : Narrows operand) (hfuel : n ≤ fuel)
    (hfuel' : n ≤ fuel') (left : Expr) :
    Steady n (chain operators operand fuel left) (chain operators operand' fuel' left) := by
  induction n generalizing fuel fuel' left with
  | zero =>
    intro ts hts
    obtain rfl := List.length_eq_zero_iff.1 (Nat.le_zero.1 hts)
    cases fuel <;> cases fuel' <;> rfl
  | succ n ih =>
    obtain ⟨k, rfl⟩ : ∃ k, fuel = k + 1 := ⟨fuel - 1, by omega⟩
    obtain ⟨k', rfl⟩ : ∃ k', fuel' = k' + 1 := ⟨fuel' - 1, by omega⟩
    refine steady_accept?_bind (Steady.refl _ _) fun operator m hm => ?_
    have hm : m ≤ n := by omega
    refine (h.mono (by omega)).bind hnarrows fun right => ?_
    exact (ih (h.mono (by omega)) (by omega) (by omega) _).mono hm

lemma steady_level {operand operand' : Parser Expr} (rule : Rule) (operators : List Sign)
    (h : Steady n operand operand') (hnarrows : Narrows operand) (hfuel : n ≤ fuel)
    (hfuel' : n ≤ fuel') :
    Steady n (level rule operators operand fuel) (level rule operators operand' fuel') :=
  (h.bind hnarrows fun first => steady_chain _ h hnarrows hfuel hfuel' first).traced rule

lemma steady_equality {unary unary' : Parser Expr} (h : Steady n unary unary')
    (hnarrows : Narrows unary) (hfuel : n ≤ fuel) (hfuel' : n ≤ fuel') :
    Steady n (equality unary fuel) (equality unary' fuel') := by
  have hfactor := steady_level .factor [.slash, .star] h hnarrows hfuel hfuel'
  have hnfactor := compositional_narrows.level hnarrows .factor [.slash, .star] (by decide) fuel
  have hterm := steady_level .term [.minus, .plus] hfactor hnfactor hfuel hfuel'
  have hnterm := compositional_narrows.level hnfactor .term [.minus, .plus] (by decide) fuel
  have hcomparison := steady_level .comparison [.greater, .greaterEqual, .less, .lessEqual] hterm
    hnterm hfuel hfuel'
  have hncomparison := compositional_narrows.level hnterm .comparison
    [.greater, .greaterEqual, .less, .lessEqual] (by decide) fuel
  exact steady_level .equality [.bangEqual, .equalEqual] hcomparison hncomparison hfuel hfuel'

lemma steady_primary {p q : Parser Expr} (hnarrows : Narrows p)
    (h : ∀ m, m < n → Steady m p q) : Steady n (primary p) (primary q) := by
  refine Steady.traced _ (steady_accept?_bind ?_ fun _ _ _ => Steady.refl _ _)
  refine steady_accept?_bind ?_ fun _ _ _ => Steady.refl _ _
  refine steady_accept?_bind (Steady.refl _ _) fun paren m hm => ?_
  exact (h m hm).bind hnarrows fun inner => Steady.refl _ _

/-- An assignment is steady when its parts are. -/
lemma steady_assignment_succ (hunary : Steady n (unary fuel) (unary fuel')) (hfuel : n ≤ fuel)
    (hfuel' : n ≤ fuel')
    (hassignment : ∀ m, m < n → Steady m (assignment fuel) (assignment fuel')) :
    Steady n (assignment (fuel + 1)) (assignment (fuel' + 1)) := by
  obtain ⟨-, hnassignment, hnunary⟩ := compositional_narrows.expression_assignment_unary fuel
  rw [assignment, assignment]
  refine ((steady_equality hunary hnunary hfuel hfuel').bind
    (compositional_narrows.equality hnunary fuel) fun target => ?_).traced _
  refine (Steady.refl _ _).bind compositional_narrows.unread fun before => ?_
  refine steady_accept?_bind (Steady.refl _ _) fun equal m hm => ?_
  exact (hassignment m hm).bind hnassignment fun value => Steady.refl _ _

/-- The bounds from which on the answers on `n` tokens stay the same: `3 n + 3` for expressions, and
one less for each category on the way down. -/
lemma steady_expression_assignment_unary (fuel fuel' n : Nat) :
    (3 * n + 3 ≤ fuel → 3 * n + 3 ≤ fuel' → Steady n (expression fuel) (expression fuel')) ∧
      (3 * n + 2 ≤ fuel → 3 * n + 2 ≤ fuel' → Steady n (assignment fuel) (assignment fuel')) ∧
        (3 * n + 1 ≤ fuel → 3 * n + 1 ≤ fuel' → Steady n (unary fuel) (unary fuel')) := by
  induction fuel generalizing fuel' n with
  | zero => exact ⟨by omega, by omega, by omega⟩
  | succ fuel ih =>
    cases fuel' with
    | zero => exact ⟨by omega, by omega, by omega⟩
    | succ fuel' =>
      refine ⟨fun hfuel hfuel' => ?_, fun hfuel hfuel' => ?_, fun hfuel hfuel' => ?_⟩
      · rw [expression, expression]
        exact ((ih fuel' n).2.1 (by omega) (by omega)).traced _
      · refine steady_assignment_succ ((ih fuel' n).2.2 (by omega) (by omega)) (by omega)
          (by omega) fun m hm => ?_
        exact (ih fuel' m).2.1 (by omega) (by omega)
      · obtain ⟨hnexpression, -, hnunary⟩ :=
          compositional_narrows.expression_assignment_unary fuel
        rw [unary, unary]
        refine Steady.traced _ (steady_accept?_bind ?_ fun operator m hm => ?_)
        · exact steady_primary hnexpression fun m hm => (ih fuel' m).1 (by omega) (by omega)
        · exact ((ih fuel' m).2.2 (by omega) (by omega)).bind hnunary fun right =>
            Steady.refl _ _

lemma steady_expression (hfuel : 3 * n + 3 ≤ fuel) (hfuel' : 3 * n + 3 ≤ fuel') :
    Steady n (expression fuel) (expression fuel') :=
  (steady_expression_assignment_unary fuel fuel' n).1 hfuel hfuel'

end Expressions

/-! ### Statements -/

section Statements

variable {n fuel fuel' : Nat}

lemma steady_expression_then {α : Type} {f : Expr → Parser α} (hfuel : 3 * n + 3 ≤ fuel)
    (hfuel' : 3 * n + 3 ≤ fuel') : Steady n (expression fuel >>= f) (expression fuel' >>= f) :=
  (steady_expression hfuel hfuel').bind (compositional_narrows.expression fuel) fun _ =>
    Steady.refl _ _

lemma steady_varDeclaration (hfuel : 3 * n + 3 ≤ fuel) (hfuel' : 3 * n + 3 ≤ fuel')
    (keyword : Token) : Steady n (varDeclaration fuel keyword) (varDeclaration fuel' keyword) := by
  refine Steady.traced _ (steady_expect_bind fun name m hm => ?_)
  refine steady_accept?_bind (Steady.refl _ _) fun equal k hk => ?_
  exact steady_expression_then (by omega) (by omega)

lemma steady_ifStatement {p q : Parser Stmt} (hnarrows : Narrows p)
    (h : ∀ m, m < n → Steady m p q) (hfuel : 3 * n + 3 ≤ fuel) (hfuel' : 3 * n + 3 ≤ fuel')
    (keyword : Token) : Steady n (ifStatement p fuel keyword) (ifStatement q fuel' keyword) := by
  refine Steady.traced _ (steady_expect_bind fun opening m hm => ?_)
  refine (steady_expression (by omega) (by omega)).bind (compositional_narrows.expression fuel)
    fun condition => steady_expect_bind fun closing k hk => ?_
  refine (h k (by omega)).bind hnarrows fun consequence => ?_
  refine steady_accept?_bind (Steady.refl _ _) fun otherwise l hl => ?_
  exact (h l (by omega)).bind hnarrows fun alternative => Steady.refl _ _

/-- The first declaration takes a token, so the others have a shorter text. -/
lemma steady_declarations_succ {mode : Mode} {closing : List Kind}
    (hdeclaration : Steady n (declaration mode fuel) (declaration mode fuel'))
    (hdeclarations : ∀ m, m < n →
      Steady m (declarations mode closing fuel) (declarations mode closing fuel')) :
    Steady n (declarations mode closing (fuel + 1)) (declarations mode closing (fuel' + 1)) := by
  intro ts hts
  rw [declarations, declarations]
  refine bind_eq_bind rfl fun next mid hresult => ?_
  cases hresult
  cases ts with
  | nil => rfl
  | cons t ts =>
    dsimp only
    split_ifs with hclosing
    · rfl
    · refine bind_eq_bind (hdeclaration hts) fun first mid hfirst => ?_
      have hshorter := (advances_declaration mode fuel hfirst).length_le
      refine bind_eq_bind (hdeclarations ts.length (Nat.lt_of_succ_le hts) hshorter) ?_
      exact fun others rest _ => rfl

/-- The bounds from which on the answers on `n` tokens stay the same: `3 n + 6` for declarations,
and one less for each category on the way down. -/
lemma steady_statement_declaration_declarations (mode : Mode) (fuel fuel' n : Nat) :
    (3 * n + 4 ≤ fuel → 3 * n + 4 ≤ fuel' →
        Steady n (statement mode fuel) (statement mode fuel')) ∧
      (3 * n + 5 ≤ fuel → 3 * n + 5 ≤ fuel' →
        Steady n (declaration mode fuel) (declaration mode fuel')) ∧
      (3 * n + 6 ≤ fuel → 3 * n + 6 ≤ fuel' → ∀ closing,
        Steady n (declarations mode closing fuel) (declarations mode closing fuel')) := by
  induction fuel generalizing fuel' n with
  | zero => exact ⟨by omega, by omega, by omega⟩
  | succ fuel ih =>
    cases fuel' with
    | zero => exact ⟨by omega, by omega, by omega⟩
    | succ fuel' =>
      obtain ⟨hnstatement, -, hndeclarations⟩ :=
        narrows_statement_declaration_declarations mode fuel
      refine ⟨fun hfuel hfuel' => ?_, fun hfuel hfuel' => ?_, fun hfuel hfuel' closing => ?_⟩
      · rw [statement, statement]
        refine Steady.traced _ (steady_accept?_bind ?_ fun keyword m hm => ?_)
        · refine steady_accept?_bind ?_ fun keyword m hm => ?_
          · refine steady_accept?_bind ?_ fun brace m hm => ?_
            · refine Steady.traced _ ((Steady.refl _ _).bind compositional_narrows.unread
                fun before => ?_)
              exact steady_expression_then (by omega) (by omega)
            · exact (((ih fuel' m).2.2 (by omega) (by omega) _).bind (hndeclarations _)
                fun body => Steady.refl _ _).traced _
          · exact (steady_expression_then (by omega) (by omega)).traced _
        · refine steady_ifStatement hnstatement (fun k hk => ?_) (by omega) (by omega) keyword
          exact (ih fuel' k).1 (by omega) (by omega)
      · rw [declaration, declaration]
        refine (Steady.recovering mode (steady_accept?_bind ?_ fun keyword m hm => ?_)).traced _
        · exact (ih fuel' n).1 (by omega) (by omega)
        · exact steady_varDeclaration (by omega) (by omega) keyword
      · refine steady_declarations_succ ((ih fuel' n).2.1 (by omega) (by omega)) fun m hm => ?_
        exact (ih fuel' m).2.2 (by omega) (by omega) closing

end Statements

/-- A program is read as with any larger bound. -/
theorem program_eq_declarations (mode : Mode) {ts : List Token} {fuel : Nat}
    (hfuel : 3 * ts.length + 6 ≤ fuel) : program mode ts = declarations mode [] fuel ts := by
  have hbound : 3 * ts.length + 6 ≤ fuelFor ts.length := by
    unfold fuelFor
    omega
  exact (steady_statement_declaration_declarations mode _ fuel ts.length).2.2 hbound hfuel []
    (Nat.le_refl _)

end LoxScript.Grammar
