import LoxScript.Proofs.Grammar.Completeness

/-!
# The dangling else

A text may have several derivation trees, which differ in the `if` that an `else` belongs to.  Every
tree can be turned into a settled one with the same tokens: where the consequence of an `if` with an
alternative is *open*, that is, has an `if` without alternative on its right edge, the alternative
is handed down to the innermost such `if`.
-/

namespace LoxScript.Grammar.StmtTree

/-- Does the tree have an `if` without an alternative on its right edge?  For a sequence of
declarations the right edges of all of them count. -/
def isOpen : {c : StmtCategory} → StmtTree c → Bool
  | _, program body _ => body.isOpen
  | _, more first others => first.isOpen || others.isOpen
  | _, ofStatement d => d.isOpen
  | _, ofIfStmt d => d.isOpen
  | _, ifThen .. => true
  | _, ifElse _ _ _ _ _ _ alternative => alternative.isOpen
  | _, nothing | _, ofVarDecl _ | _, var .. | _, varInit .. | _, ofExprStmt _ | _, ofPrintStmt _
  | _, ofBlock _ | _, exprStmt .. | _, printStmt .. | _, block .. => false

/-- No consequence that is followed by an alternative is open. -/
def Tidy : {c : StmtCategory} → StmtTree c → Prop
  | _, program body _ => body.Tidy
  | _, more first others => first.Tidy ∧ others.Tidy
  | _, ofStatement d => d.Tidy
  | _, ofIfStmt d => d.Tidy
  | _, ofBlock d => d.Tidy
  | _, ifThen _ _ _ _ consequence => consequence.Tidy
  | _, ifElse _ _ _ _ consequence _ alternative =>
    consequence.isOpen = false ∧ consequence.Tidy ∧ alternative.Tidy
  | _, block _ body _ => body.Tidy
  | _, nothing | _, ofVarDecl _ | _, var .. | _, varInit .. | _, ofExprStmt _ | _, ofPrintStmt _
  | _, exprStmt .. | _, printStmt .. => True

/-- What follows a declaration in a sequence is another declaration, or what follows the
sequence. -/
lemma not_starts_else_append (others : StmtTree .declarations) {after : List Token}
    (h : ¬ Starts [.keyword .elseWord] after) :
    ¬ Starts [.keyword .elseWord] (others.tokens ++ after) := by
  cases others with
  | nothing => exact h
  | more first others =>
    rw [tokens, List.append_assoc]
    exact ((first.starts rfl).append _).not_of_disjoint (by decide)

/-- A tidy tree is settled wherever its right edge is. -/
lemma Tidy.settled {c : StmtCategory} {D : StmtTree c} (h : D.Tidy) {after : List Token}
    (hopen : D.isOpen = true → ¬ Starts [.keyword .elseWord] after) : D.Settled after := by
  induction D generalizing after with
  | program body stop ih =>
    refine ih h fun _ => ?_
    exact not_starts_of_kind stop.2 (by decide)
  | nothing => trivial
  | more first others ihf iho =>
    obtain ⟨hfirst, hothers⟩ := h
    simp only [isOpen, Bool.or_eq_true] at hopen
    refine ⟨ihf hfirst fun hf => ?_, iho hothers fun ho => hopen (.inr ho)⟩
    exact not_starts_else_append others (hopen (.inl hf))
  | ofVarDecl d => cases d <;> trivial
  | ofStatement d ih => exact ih h hopen
  | var | varInit | exprStmt | printStmt => trivial
  | ofExprStmt d => cases d; trivial
  | ofPrintStmt d => cases d; trivial
  | ofIfStmt d ih => exact ih h hopen
  | ofBlock d ih =>
    cases d with
    | block opening body closing => exact ih h fun hd => nomatch hd
  | ifThen keyword opening condition closing consequence ih =>
    exact ⟨hopen rfl, ih h fun _ => hopen rfl⟩
  | ifElse keyword opening condition closing consequence otherwise alternative iht ihe =>
    obtain ⟨hclosed, hthen, helse⟩ := h
    refine ⟨iht hthen fun ht => ?_, ihe helse hopen⟩
    rw [hclosed] at ht
    cases ht
  | block opening body closing ih =>
    refine ih h fun _ => ?_
    exact not_starts_of_kind closing.2 (by decide)

/-! ### Handing an alternative down -/

/-- Gives the alternative to the innermost open `if` on the right edge. -/
def attach : {c : StmtCategory} → StmtTree c → (otherwise : Word [.keyword .elseWord]) →
    (alternative : StmtTree .statement) → StmtTree c
  | _, ofIfStmt d, otherwise, alternative => ofIfStmt (d.attach otherwise alternative)
  | _, ifThen keyword opening condition closing consequence, otherwise, alternative =>
    if consequence.isOpen then
      ifThen keyword opening condition closing (consequence.attach otherwise alternative)
    else ifElse keyword opening condition closing consequence otherwise alternative
  | _, ifElse keyword opening condition closing consequence first second, otherwise, alternative =>
    ifElse keyword opening condition closing consequence first (second.attach otherwise alternative)
  | _, d, _, _ => d

variable {otherwise : Word [.keyword .elseWord]} {alternative : StmtTree .statement}

/-- The alternative comes after all tokens of an open statement. -/
lemma tokens_attach {c : StmtCategory} (D : StmtTree c) (hc : c = .statement ∨ c = .ifStmt)
    (hopen : D.isOpen = true) :
    (D.attach otherwise alternative).tokens
      = D.tokens ++ otherwise.1 :: alternative.tokens := by
  induction D with
  | ofIfStmt d ih => exact ih (.inr rfl) hopen
  | ifThen keyword opening condition closing consequence ih =>
    rw [attach]
    cases hconsequence : consequence.isOpen with
    | true =>
      have hattach := ih (.inl rfl) hconsequence
      simp [tokens, hattach]
    | false => simp [tokens]
  | ifElse keyword opening condition closing consequence first second iht ihe =>
    have hattach := ihe (.inl rfl) hopen
    rw [attach]
    simp [tokens, hattach]
  | ofExprStmt | ofPrintStmt | ofBlock => cases hopen
  | program | nothing | more | ofVarDecl | ofStatement | var | varInit | exprStmt | printStmt
  | block => simp at hc

/-- Handing down a tidy alternative keeps a statement tidy. -/
lemma tidy_attach {c : StmtCategory} {D : StmtTree c} (hD : D.Tidy) (halt : alternative.Tidy) :
    (D.attach otherwise alternative).Tidy := by
  induction D with
  | ofIfStmt d ih => exact ih hD
  | ifThen keyword opening condition closing consequence ih =>
    rw [attach]
    cases hconsequence : consequence.isOpen with
    | true =>
      simp only [if_true]
      exact ih hD
    | false =>
      simp only [Bool.false_eq_true, if_false]
      exact ⟨hconsequence, hD, halt⟩
  | ifElse keyword opening condition closing consequence first second iht ihe =>
    obtain ⟨hclosed, hthen, helse⟩ := hD
    exact ⟨hclosed, hthen, ihe helse⟩
  | program | nothing | more | ofVarDecl | ofStatement | var | varInit | ofExprStmt | ofPrintStmt
  | ofBlock | exprStmt | printStmt | block => exact hD

/-! ### Settling a tree -/

/-- The tree in which every alternative belongs to the nearest `if` that can have it. -/
def settle : {c : StmtCategory} → StmtTree c → StmtTree c
  | _, program body stop => program body.settle stop
  | _, more first others => more first.settle others.settle
  | _, ofStatement d => ofStatement d.settle
  | _, ofIfStmt d => ofIfStmt d.settle
  | _, ofBlock d => ofBlock d.settle
  | _, ifThen keyword opening condition closing consequence =>
    ifThen keyword opening condition closing consequence.settle
  | _, ifElse keyword opening condition closing consequence otherwise alternative =>
    if consequence.settle.isOpen then
      ifThen keyword opening condition closing
        (consequence.settle.attach otherwise alternative.settle)
    else ifElse keyword opening condition closing consequence.settle otherwise alternative.settle
  | _, block opening body closing => block opening body.settle closing
  | _, d => d

/-- Settling a tree keeps its tokens. -/
lemma tokens_settle {c : StmtCategory} (D : StmtTree c) : D.settle.tokens = D.tokens := by
  induction D with
  | program body stop ih => simp [settle, tokens, ih]
  | more first others ihf iho => simp [settle, tokens, ihf, iho]
  | ofStatement d ih => exact ih
  | ofIfStmt d ih => exact ih
  | ofBlock d ih => exact ih
  | ifThen keyword opening condition closing consequence ih => simp [settle, tokens, ih]
  | ifElse keyword opening condition closing consequence otherwise alternative iht ihe =>
    rw [settle]
    cases hopen : consequence.settle.isOpen with
    | true =>
      have hattach : (consequence.settle.attach otherwise alternative.settle).tokens = _ :=
        tokens_attach consequence.settle (.inl rfl) hopen
      simp [tokens, hattach, iht, ihe]
    | false => simp [tokens, iht, ihe]
  | block opening body closing ih => simp [settle, tokens, ih]
  | nothing | ofVarDecl | var | varInit | ofExprStmt | ofPrintStmt | exprStmt | printStmt => rfl

/-- A settled tree has no open consequence before an alternative. -/
lemma tidy_settle {c : StmtCategory} (D : StmtTree c) : D.settle.Tidy := by
  induction D with
  | program body stop ih => exact ih
  | more first others ihf iho => exact ⟨ihf, iho⟩
  | ofStatement d ih => exact ih
  | ofIfStmt d ih => exact ih
  | ofBlock d ih => exact ih
  | ifThen keyword opening condition closing consequence ih => exact ih
  | ifElse keyword opening condition closing consequence otherwise alternative iht ihe =>
    rw [settle]
    cases hopen : consequence.settle.isOpen with
    | true =>
      simp only [if_true]
      exact tidy_attach iht ihe
    | false =>
      simp only [Bool.false_eq_true, if_false]
      exact ⟨hopen, iht, ihe⟩
  | block opening body closing ih => exact ih
  | nothing | ofVarDecl | var | varInit | ofExprStmt | ofPrintStmt | exprStmt | printStmt => trivial

/-- Every derivation of a program can be settled. -/
theorem settled_settle (D : StmtTree .program) : D.settle.Settled [] :=
  D.tidy_settle.settled fun _ => not_starts_nil

end LoxScript.Grammar.StmtTree
