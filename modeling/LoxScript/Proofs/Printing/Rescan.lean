import LoxScript.Proofs.Printing.Parentheses
import LoxScript.Proofs.Printing.Words

/-!
# Printed programs are cut into the same words

In a printed program every word is followed by a blank, a closing parenthesis or a semicolon, and a
sign by nothing that extends it.  So scanning the print of a derivation tree gives the tokens of
that tree with all its parentheses, up to their lines.
-/

namespace LoxScript.Grammar

open Scan

/-! ### Expressions -/

/-- The print of an expression starts with a parenthesis, or as a token that is no sign. -/
lemma ExprTree.leads_render {c : ExprCategory} (D : ExprTree c) (h : ∀ t ∈ D.tokens, Spelled t) :
    Leads D.value.render := by
  induction D with
  | expression e ih => exact ih h
  | ofEquality e ih => exact ih h
  | ofOperand e ih => exact ih h
  | ofPrimary e ih => exact ih h
  | assign | binary | unary | grouping => exact ⟨_, _, rfl, by decide⟩
  | literal token =>
    obtain ⟨p, hp⟩ := h token.1 List.mem_cons_self
    rw [value, Expr.render, if_neg (ne_nil_of_mem_texts hp.mem)]
    refine leads_of_denotes hp fun s hs => ?_
    have hkind := token.2
    rw [hs] at hkind
    simp at hkind
  | name token =>
    obtain ⟨p, hp⟩ := h token.1 List.mem_cons_self
    refine leads_of_denotes hp fun s hs => ?_
    have hkind := token.2
    rw [hs] at hkind
    simp at hkind

lemma parted_space (rest : Bytes) : Parted (utf8 " " ++ rest) :=
  parted_cons (by decide) rest

lemma parted_rightParen (rest : Bytes) : Parted (utf8 ")" ++ rest) :=
  parted_cons (by decide) rest

lemma cuts_leftParen {rest : Bytes} (hrest : Clear rest) :
    Cuts (utf8 "(") [ExprTree.leftParen.1] rest :=
  cuts_sign ⟨.sign .leftParen, .sign .leftParen⟩ ExprTree.leftParen.2 hrest

/-- The sign between a variable and its new value. -/
lemma cuts_equal {t : Token} (h : Spelled t) (hkind : t.kind ∈ [.sign .equal]) (rest : Bytes) :
    Cuts (utf8 " = ") [t] rest :=
  (cuts_space _).append ((cuts_sign h hkind (parted_space rest).clear).append (cuts_space rest))

namespace ExprTree

/-- Scanning the print of the tree gives its tokens with all parentheses. -/
def Rescans {c : ExprCategory} (D : ExprTree c) : Prop :=
  (∀ t ∈ D.tokens, Spelled t) →
    ∀ ⦃rest : Bytes⦄, Parted rest → Cuts D.value.render D.parenthesised.tokens rest

lemma rescans_literal (token : Word literalKinds) : (literal token).Rescans := by
  intro h rest hrest
  have htoken : Spelled token.1 := h token.1 List.mem_cons_self
  rw [value, Expr.render, if_neg htoken.lexeme_ne_nil]
  exact cuts_token htoken hrest

lemma rescans_name (token : Word [.identifier]) : (name token).Rescans := by
  intro h rest hrest
  exact cuts_token (h token.1 List.mem_cons_self) hrest

/-- An expression and the parenthesis that closes the grouping around it. -/
lemma Rescans.cuts_rightParen {c : ExprCategory} {D : ExprTree c} (hD : D.Rescans)
    (h : ∀ t ∈ D.tokens, Spelled t) {rest : Bytes} (hrest : Parted rest) :
    Cuts (D.value.render ++ utf8 ")") (D.parenthesised.tokens ++ [rightParen.1]) rest :=
  (hD h (parted_rightParen rest)).append (cuts_sign ⟨.sign .rightParen, .sign .rightParen⟩
    rightParen.2 hrest.clear)

lemma rescans_assign {target : Word [.identifier]} {equal : Word [.sign .equal]}
    {value : ExprTree .assignment} (ih : value.Rescans) : (assign target equal value).Rescans := by
  intro h rest hrest
  have htarget : Spelled target.1 := h _ (by simp [tokens])
  have hequal : Spelled equal.1 := h _ (by simp [tokens])
  have hvalue : ∀ t ∈ value.tokens, Spelled t := fun t ht => h t (by simp [tokens, ht])
  have hname : Leads target.1.lexeme := (name target).leads_render (by simpa [tokens] using htarget)
  have hleft : Cuts (utf8 "(" ++ target.1.lexeme) [leftParen.1, target.1]
      (utf8 " = " ++ (value.value.render ++ utf8 ")" ++ rest)) :=
    (cuts_leftParen (hname.append _).clear).append (cuts_token htarget (parted_space _))
  rw [parenthesised, tokens_paren, tokens, tokens_lift]
  exact (hleft.append (cuts_equal hequal equal.2 _)).append (ih.cuts_rightParen hvalue hrest)

lemma rescans_binary {l : Level} {left : ExprTree (.level l)} {operator : Word l.operators}
    {right : ExprTree l.operand} (ihl : left.Rescans) (ihr : right.Rescans) :
    (binary left operator right).Rescans := by
  intro h rest hrest
  have hl : ∀ t ∈ left.tokens, Spelled t := fun t ht => h t (by simp [tokens, ht])
  have hoperator : Spelled operator.1 := h _ (by simp [tokens])
  have hr : ∀ t ∈ right.tokens, Spelled t := fun t ht => h t (by simp [tokens, ht])
  have hmiddle : Cuts (utf8 " " ++ operator.1.lexeme ++ utf8 " ") [operator.1]
      (right.value.render ++ utf8 ")" ++ rest) :=
    ((cuts_space _).append (cuts_token hoperator (parted_space _))).append (cuts_space _)
  have hparted : Parted (utf8 " " ++ operator.1.lexeme ++ utf8 " " ++
      (right.value.render ++ utf8 ")") ++ rest) :=
    parted_space _
  have hwords : (binary left operator right).parenthesised.tokens = [leftParen.1] ++
      (left.parenthesised.tokens ++ ([operator.1] ++
        (right.parenthesised.tokens ++ [rightParen.1]))) := by
    simp [parenthesised, tokens_paren, tokens, tokens_lift]
  rw [hwords]
  exact (cuts_leftParen (((left.leads_render hl).append _).append _).clear).append
    ((ihl hl hparted).append (hmiddle.append (ihr.cuts_rightParen hr hrest)))

lemma rescans_unary {operator : Word unaryOperators} {right : ExprTree .unary}
    (ih : right.Rescans) : (unary operator right).Rescans := by
  intro h rest hrest
  have hoperator : Spelled operator.1 := h _ (by simp [tokens])
  have hr : ∀ t ∈ right.tokens, Spelled t := fun t ht => h t (by simp [tokens, ht])
  have hlead := right.leads_render hr
  -- Neither of the two operators could be taken for a part of what stands around it.
  obtain ⟨s, hs, hkind⟩ : ∃ s : Sign, Leads s.text ∧ operator.1.kind ∈ [.sign s] := by
    have hbang : Leads (Sign.text .bang) := ⟨_, _, rfl, by decide⟩
    have hminus : Leads (Sign.text .minus) := ⟨_, _, rfl, by decide⟩
    rcases List.mem_cons.1 operator.2 with hkind | hkind
    · exact ⟨.bang, hbang, List.mem_singleton.2 hkind⟩
    · exact ⟨.minus, hminus, hkind⟩
  have hleft : Cuts (utf8 "(" ++ s.text) [leftParen.1, operator.1]
      (right.value.render ++ utf8 ")" ++ rest) :=
    (cuts_leftParen (hs.append _).clear).append
      (cuts_sign hoperator hkind ((hlead.append _).append _).clear)
  rw [parenthesised, tokens_paren, tokens, tokens_lift, value, Expr.render,
    hoperator.lexeme_eq_sign hkind]
  exact hleft.append (ih.cuts_rightParen hr hrest)

lemma rescans_grouping {opening : Word [.sign .leftParen]} {inner : ExprTree .expression}
    {closing : Word [.sign .rightParen]} (ih : inner.Rescans) :
    (grouping opening inner closing).Rescans := by
  intro h rest hrest
  have hopening : Spelled opening.1 := h _ (by simp [tokens])
  have hclosing : Spelled closing.1 := h _ (by simp [tokens])
  have hinner : ∀ t ∈ inner.tokens, Spelled t := fun t ht => h t (by simp [tokens, ht])
  have hlead := inner.leads_render hinner
  rw [parenthesised, tokens, tokens_lift]
  exact (cuts_sign hopening opening.2 ((hlead.append _).append _).clear).append
    ((ih hinner (parted_rightParen rest)).append (cuts_sign hclosing closing.2 hrest.clear))

/-- The print of an expression is cut into its tokens with all parentheses. -/
lemma rescans {c : ExprCategory} (D : ExprTree c) : D.Rescans := by
  induction D with
  | expression e ih => exact ih
  | assign target equal value ih => exact rescans_assign ih
  | ofEquality e ih => exact ih
  | ofOperand e ih => exact ih
  | binary left operator right ihl ihr => exact rescans_binary ihl ihr
  | unary operator right ih => exact rescans_unary ih
  | ofPrimary e ih => exact ih
  | literal token => exact rescans_literal token
  | name token => exact rescans_name token
  | grouping opening inner closing ih => exact rescans_grouping ih

end ExprTree

/-! ### Statements -/

/-- The print of what a tree of the category stands for. -/
def StmtCategory.render : {c : StmtCategory} → c.Value → Bytes
  | .program, p | .declarations, p => Program.render p
  | .declaration, s | .varDecl, s | .statement, s | .exprStmt, s | .printStmt, s | .ifStmt, s
  | .block, s => Stmt.render s

namespace StmtTree

/-- The print of statements starts with a word or a bracket. -/
lemma clear_render {c : StmtCategory} (D : StmtTree c) (h : ∀ t ∈ D.tokens, Spelled t)
    {rest : Bytes} (hrest : Clear rest) : Clear (StmtCategory.render D.value ++ rest) := by
  induction D generalizing rest with
  | program body stop ih => exact ih (fun t ht => h t (by simp [tokens, ht])) hrest
  | nothing => exact hrest
  | more first others ihf iho =>
    have hothers := iho (fun t ht => h t (by simp [tokens, ht])) hrest
    have hfirst := ihf (fun t ht => h t (by simp [tokens, ht])) hothers
    rwa [← List.append_assoc] at hfirst
  | ofVarDecl d ih => exact ih h hrest
  | ofStatement d ih => exact ih h hrest
  | ofExprStmt d ih => exact ih h hrest
  | ofPrintStmt d ih => exact ih h hrest
  | ofIfStmt d ih => exact ih h hrest
  | ofBlock d ih => exact ih h hrest
  | exprStmt e semicolon =>
    have hlead := e.leads_render fun t ht => h t (by simp [tokens, ht])
    exact ((hlead.append _).append rest).clear
  | var | varInit | printStmt | ifThen | ifElse | block =>
    exact Leads.clear ⟨_, _, rfl, by decide⟩

/-- A reserved word and the blank after it. -/
lemma cuts_keyword_space {t : Token} {k : Keyword} (h : Spelled t) (hkind : t.kind ∈ [.keyword k])
    (rest : Bytes) : Cuts (k.text ++ utf8 " ") [t] rest :=
  (cuts_keyword h hkind (parted_space rest)).append (cuts_space rest)

lemma parted_semicolon (rest : Bytes) : Parted (utf8 ";" ++ rest) :=
  parted_cons (by decide) rest

/-- An expression and the semicolon after it. -/
lemma cuts_semicolon {e : ExprTree .expression} (he : ∀ t ∈ e.tokens, Spelled t)
    {semicolon : Word [.sign .semicolon]} (hsemicolon : Spelled semicolon.1) {rest : Bytes}
    (hrest : Clear rest) :
    Cuts (e.value.render ++ utf8 ";") (e.parenthesised.tokens ++ [semicolon.1]) rest :=
  (e.rescans he (parted_semicolon rest)).append (cuts_sign hsemicolon semicolon.2 hrest)

/-- Scanning the print of the tree gives its tokens with all parentheses. -/
def Rescans {c : StmtCategory} (D : StmtTree c) : Prop :=
  (∀ t ∈ D.tokens, Spelled t) → ∀ ⦃rest : Bytes⦄, Clear rest →
    Cuts (StmtCategory.render D.value) D.parenthesised.tokens rest

lemma rescans_more {first : StmtTree .declaration} {others : StmtTree .declarations}
    (ihf : first.Rescans) (iho : others.Rescans) : (more first others).Rescans := by
  intro h rest hrest
  have hfirst : ∀ t ∈ first.tokens, Spelled t := fun t ht => h t (by simp [tokens, ht])
  have hothers : ∀ t ∈ others.tokens, Spelled t := fun t ht => h t (by simp [tokens, ht])
  exact (ihf hfirst (others.clear_render hothers hrest)).append (iho hothers hrest)

lemma rescans_var (keyword : Word [.keyword .varWord]) (name : Word [.identifier])
    (semicolon : Word [.sign .semicolon]) : (var keyword name semicolon).Rescans := by
  intro h rest hrest
  have hkeyword : Spelled keyword.1 := h _ (by simp [tokens])
  have hname : Spelled name.1 := h _ (by simp [tokens])
  have hsemicolon : Spelled semicolon.1 := h _ (by simp [tokens])
  exact ((cuts_keyword_space hkeyword keyword.2 _).append
    (cuts_token hname (parted_semicolon rest))).append (cuts_sign hsemicolon semicolon.2 hrest)

lemma rescans_varInit (keyword : Word [.keyword .varWord]) (name : Word [.identifier])
    (equal : Word [.sign .equal]) (initial : ExprTree .expression)
    (semicolon : Word [.sign .semicolon]) :
    (varInit keyword name equal initial semicolon).Rescans := by
  intro h rest hrest
  have hkeyword : Spelled keyword.1 := h _ (by simp [tokens])
  have hname : Spelled name.1 := h _ (by simp [tokens])
  have hequal : Spelled equal.1 := h _ (by simp [tokens])
  have hinitial : ∀ t ∈ initial.tokens, Spelled t := fun t ht => h t (by simp [tokens, ht])
  have hsemicolon : Spelled semicolon.1 := h _ (by simp [tokens])
  have hwords : (varInit keyword name equal initial semicolon).parenthesised.tokens =
      [keyword.1, name.1, equal.1] ++ (initial.parenthesised.tokens ++ [semicolon.1]) := by
    simp [parenthesised, map, tokens, ExprTree.tokens_lift]
  have hleft : Cuts (utf8 "var " ++ name.1.lexeme) [keyword.1, name.1]
      (utf8 " = " ++ (initial.value.render ++ utf8 ";" ++ rest)) :=
    (cuts_keyword_space hkeyword keyword.2 _).append (cuts_token hname (parted_space _))
  rw [hwords]
  exact (hleft.append (cuts_equal hequal equal.2 _)).append
    (cuts_semicolon hinitial hsemicolon hrest)

lemma rescans_exprStmt (e : ExprTree .expression) (semicolon : Word [.sign .semicolon]) :
    (exprStmt e semicolon).Rescans := by
  intro h rest hrest
  have he : ∀ t ∈ e.tokens, Spelled t := fun t ht => h t (by simp [tokens, ht])
  have hsemicolon : Spelled semicolon.1 := h _ (by simp [tokens])
  have hwords : (exprStmt e semicolon).parenthesised.tokens =
      e.parenthesised.tokens ++ [semicolon.1] := by
    simp [parenthesised, map, tokens, ExprTree.tokens_lift]
  rw [hwords]
  exact cuts_semicolon he hsemicolon hrest

lemma rescans_printStmt (keyword : Word [.keyword .printWord]) (e : ExprTree .expression)
    (semicolon : Word [.sign .semicolon]) : (printStmt keyword e semicolon).Rescans := by
  intro h rest hrest
  have hkeyword : Spelled keyword.1 := h _ (by simp [tokens])
  have he : ∀ t ∈ e.tokens, Spelled t := fun t ht => h t (by simp [tokens, ht])
  have hsemicolon : Spelled semicolon.1 := h _ (by simp [tokens])
  have hwords : (printStmt keyword e semicolon).parenthesised.tokens =
      [keyword.1] ++ (e.parenthesised.tokens ++ [semicolon.1]) := by
    simp [parenthesised, map, tokens, ExprTree.tokens_lift]
  rw [hwords]
  exact (cuts_keyword_space hkeyword keyword.2 _).append (cuts_semicolon he hsemicolon hrest)

/-- A conditional statement is cut as its parts are. -/
lemma cuts_if {keyword : Word [.keyword .ifWord]} {opening : Word [.sign .leftParen]}
    {condition : ExprTree .expression} {closing : Word [.sign .rightParen]}
    (hkeyword : Spelled keyword.1) (hopening : Spelled opening.1)
    (hcondition : ∀ t ∈ condition.tokens, Spelled t) (hclosing : Spelled closing.1)
    {text rest : Bytes} {words : List Token} (htext : Cuts text words rest) :
    Cuts (utf8 "if (" ++ (condition.value.render ++ (utf8 ") " ++ text)))
      (keyword.1 :: opening.1 :: (condition.parenthesised.tokens ++ closing.1 :: words)) rest := by
  have hlead := condition.leads_render hcondition
  have hhead : Cuts (utf8 "if (") [keyword.1, opening.1]
      (condition.value.render ++ (utf8 ") " ++ text) ++ rest) := by
    have hopen : Cuts (utf8 " (") [opening.1]
        (condition.value.render ++ (utf8 ") " ++ text) ++ rest) :=
      (cuts_space _).append (cuts_sign hopening opening.2 ((hlead.append _).append rest).clear)
    have hparted : Parted (utf8 " (" ++ (condition.value.render ++ (utf8 ") " ++ text) ++ rest)) :=
      parted_space _
    exact (cuts_keyword hkeyword keyword.2 hparted).append hopen
  have hclose : Cuts (utf8 ") ") [closing.1] (text ++ rest) :=
    (cuts_sign hclosing closing.2 (parted_space _).clear).append (cuts_space _)
  have hparted : Parted (utf8 ") " ++ text ++ rest) := parted_rightParen _
  exact hhead.append ((condition.rescans hcondition hparted).append (hclose.append htext))

lemma rescans_ifThen {keyword : Word [.keyword .ifWord]} {opening : Word [.sign .leftParen]}
    {condition : ExprTree .expression} {closing : Word [.sign .rightParen]}
    {consequence : StmtTree .statement} (ih : consequence.Rescans) :
    (ifThen keyword opening condition closing consequence).Rescans := by
  intro h rest hrest
  have hcondition : ∀ t ∈ condition.tokens, Spelled t := fun t ht => h t (by simp [tokens, ht])
  have hthen : ∀ t ∈ consequence.tokens, Spelled t := fun t ht => h t (by simp [tokens, ht])
  have hwords : (ifThen keyword opening condition closing consequence).parenthesised.tokens =
      keyword.1 :: opening.1 :: (condition.parenthesised.tokens ++ closing.1 ::
        consequence.parenthesised.tokens) := by
    simp [parenthesised, map, tokens, ExprTree.tokens_lift]
  rw [hwords]
  exact cuts_if (h _ (by simp [tokens])) (h _ (by simp [tokens])) hcondition
    (h _ (by simp [tokens])) (ih hthen hrest)

lemma rescans_ifElse {keyword : Word [.keyword .ifWord]} {opening : Word [.sign .leftParen]}
    {condition : ExprTree .expression} {closing : Word [.sign .rightParen]}
    {consequence : StmtTree .statement} {otherwise : Word [.keyword .elseWord]}
    {alternative : StmtTree .statement} (iht : consequence.Rescans) (ihe : alternative.Rescans) :
    (ifElse keyword opening condition closing consequence otherwise alternative).Rescans := by
  intro h rest hrest
  have hcondition : ∀ t ∈ condition.tokens, Spelled t := fun t ht => h t (by simp [tokens, ht])
  have hthen : ∀ t ∈ consequence.tokens, Spelled t := fun t ht => h t (by simp [tokens, ht])
  have hotherwise : Spelled otherwise.1 := h _ (by simp [tokens])
  have helse : ∀ t ∈ alternative.tokens, Spelled t := fun t ht => h t (by simp [tokens, ht])
  have hwords : (ifElse keyword opening condition closing consequence otherwise
      alternative).parenthesised.tokens =
      keyword.1 :: opening.1 :: (condition.parenthesised.tokens ++ closing.1 ::
        (consequence.parenthesised.tokens ++ ([otherwise.1] ++
          alternative.parenthesised.tokens))) := by
    simp [parenthesised, map, tokens, ExprTree.tokens_lift]
  have hmiddle : Cuts (utf8 " else ") [otherwise.1]
      (StmtCategory.render alternative.value ++ rest) :=
    (cuts_space _).append (cuts_keyword_space hotherwise otherwise.2 _)
  have hspace : Clear (utf8 " else " ++ StmtCategory.render alternative.value ++ rest) :=
    (parted_space _).clear
  rw [hwords]
  exact cuts_if (h _ (by simp [tokens])) (h _ (by simp [tokens])) hcondition
    (h _ (by simp [tokens])) ((iht hthen hspace).append (hmiddle.append (ihe helse hrest)))

lemma rescans_block {opening : Word [.sign .leftBrace]} {body : StmtTree .declarations}
    {closing : Word [.sign .rightBrace]} (ih : body.Rescans) :
    (block opening body closing).Rescans := by
  intro h rest hrest
  have hopening : Spelled opening.1 := h _ (by simp [tokens])
  have hbody : ∀ t ∈ body.tokens, Spelled t := fun t ht => h t (by simp [tokens, ht])
  have hclosing : Spelled closing.1 := h _ (by simp [tokens])
  have hbrace : Clear (utf8 "\x7d" ++ rest) := Leads.clear ⟨_, _, rfl, by decide⟩
  have hstart := body.clear_render hbody hbrace
  rw [← List.append_assoc] at hstart
  exact (cuts_sign hopening opening.2 hstart).append
    ((ih hbody hbrace).append (cuts_sign hclosing closing.2 hrest))

/-- The print of statements is cut into their tokens with all parentheses.  A program has a last
token, the end of input, that is not printed. -/
lemma rescans {c : StmtCategory} (D : StmtTree c) (hc : c ≠ .program) : D.Rescans := by
  induction D with
  | program => exact absurd rfl hc
  | nothing => exact fun _ rest _ => cuts_nil rest
  | more first others ihf iho => exact rescans_more (ihf (by decide)) (iho (by decide))
  | ofVarDecl d ih => exact ih (by decide)
  | ofStatement d ih => exact ih (by decide)
  | var keyword name semicolon => exact rescans_var keyword name semicolon
  | varInit keyword name equal initial semicolon =>
    exact rescans_varInit keyword name equal initial semicolon
  | ofExprStmt d ih => exact ih (by decide)
  | ofPrintStmt d ih => exact ih (by decide)
  | ofIfStmt d ih => exact ih (by decide)
  | ofBlock d ih => exact ih (by decide)
  | exprStmt e semicolon => exact rescans_exprStmt e semicolon
  | printStmt keyword e semicolon => exact rescans_printStmt keyword e semicolon
  | ifThen keyword opening condition closing consequence ih => exact rescans_ifThen (ih (by decide))
  | ifElse keyword opening condition closing consequence otherwise alternative iht ihe =>
    exact rescans_ifElse (iht (by decide)) (ihe (by decide))
  | block opening body closing ih => exact rescans_block (ih (by decide))

end StmtTree

end LoxScript.Grammar
