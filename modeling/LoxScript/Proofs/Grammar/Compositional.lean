import LoxScript.Proofs.Grammar.Reply

/-!
# Properties that pass from parts to wholes

All rules of the grammar are put together from the same few parsers.  A relation between parsers
that holds of these and is kept by putting parsers together therefore holds of every rule, read in
one mode on the left and in another on the right.  A property of single parsers is a relation that
looks at one side only.

A few rules also look at the tokens that are left: an assignment remembers where it saw its sign, a
statement its first token, and declarations go by the next one.  A relation that does not hold of
looking at the text as such can still be established for these rules by hand, and then holds of all
the others.

Other relations hold only as long as certain tokens are not taken, such as those that end statements
or hold blocks together.  They pass from parts to wholes in expressions, or in statements without
blocks.
-/

namespace LoxScript.Grammar

open LoxScript.Parser

/-- What a declaration tries to read: a variable after its keyword, or a statement. -/
def attempt (mode : Mode) (fuel : Nat) : Parser Stmt := do
  match ← accept? [.keyword .varWord] with
  | some keyword => varDeclaration fuel keyword
  | none => statement mode fuel

/-- A declaration is what it tries, unless a broken one is skipped. -/
lemma declaration_succ (mode : Mode) (fuel : Nat) :
    declaration mode (fuel + 1) = traced .declaration (recovering mode (attempt mode fuel)) := by
  rw [declaration]
  rfl

/-- The kinds of token that expressions are made of. -/
def phraseKinds : List Kind :=
  [.sign .leftParen, .sign .rightParen, .sign .minus, .sign .plus, .sign .slash, .sign .star,
   .sign .bang, .sign .bangEqual, .sign .equal, .sign .equalEqual, .sign .greater,
   .sign .greaterEqual, .sign .less, .sign .lessEqual, .identifier, .string, .number,
   .keyword .falseWord, .keyword .trueWord, .keyword .nilWord]

/-- The kinds of token that statements without blocks are made of. -/
def clauseKinds : List Kind :=
  [.sign .semicolon, .keyword .varWord, .keyword .ifWord, .keyword .elseWord,
   .keyword .printWord] ++ phraseKinds

/-- The relation holds of the parsers that take at most one token, if that is of the kinds given and
does not close a block, and is kept by sequences and by the marks of rules. -/
structure Phrasal (kinds : List Kind) (R : {α : Type} → Parser α → Parser α → Prop) : Prop where
  pure {α : Type} (a : α) : R (Pure.pure a) (Pure.pure a)
  bind {α β : Type} {p q : Parser α} {f g : α → Parser β} :
    R p q → (∀ a, R (f a) (g a)) → R (p >>= f) (q >>= g)
  traced {α : Type} {p q : Parser α} (rule : Rule) :
    R p q → R (Parser.traced rule p) (Parser.traced rule q)
  accept? {accepted : List Kind} :
    accepted ⊆ kinds → R (Parser.accept? accepted) (Parser.accept? accepted)
  expect {kind : Kind} {what : Expected} : kind ∈ kinds → what ≠ .braceAfterBlock →
    R (Parser.expect kind what) (Parser.expect kind what)
  fail {α : Type} : R (Parser.fail .expression : Parser α) (Parser.fail .expression)

/-- The relation holds of the parsers that take at most one token, and is kept by sequences and by
the marks of rules. -/
structure Sequential (R : {α : Type} → Parser α → Parser α → Prop) : Prop where
  pure {α : Type} (a : α) : R (Pure.pure a) (Pure.pure a)
  bind {α β : Type} {p q : Parser α} {f g : α → Parser β} :
    R p q → (∀ a, R (f a) (g a)) → R (p >>= f) (q >>= g)
  traced {α : Type} {p q : Parser α} (rule : Rule) :
    R p q → R (Parser.traced rule p) (Parser.traced rule q)
  accept? (kinds : List Kind) : R (Parser.accept? kinds) (Parser.accept? kinds)
  expect (kind : Kind) (what : Expected) :
    R (Parser.expect kind what) (Parser.expect kind what)
  fail {α : Type} (what : Expected) : R (Parser.fail what : Parser α) (Parser.fail what)

/-- The relation holds of the parsers that take at most one token or look at the text, and is kept
by sequences and by the marks of rules. -/
structure Compositional (R : {α : Type} → Parser α → Parser α → Prop) : Prop where
  pure {α : Type} (a : α) : R (Pure.pure a) (Pure.pure a)
  bind {α β : Type} {p q : Parser α} {f g : α → Parser β} :
    R p q → (∀ a, R (f a) (g a)) → R (p >>= f) (q >>= g)
  traced {α : Type} {p q : Parser α} (rule : Rule) :
    R p q → R (Parser.traced rule p) (Parser.traced rule q)
  unread : R Parser.unread Parser.unread
  accept? (kinds : List Kind) : R (Parser.accept? kinds) (Parser.accept? kinds)
  expect (kind : Kind) (what : Expected) :
    R (Parser.expect kind what) (Parser.expect kind what)
  fail {α : Type} (what : Expected) : R (Parser.fail what : Parser α) (Parser.fail what)
  failAtTarget {α : Type} (blamed : List Token) :
    R (Parser.failAtTarget blamed : Parser α) (Parser.failAtTarget blamed)

variable {R : {α : Type} → Parser α → Parser α → Prop}

/-! ### Expressions -/

namespace Phrasal

lemma chain (hR : Phrasal phraseKinds @R) {operand : Parser Expr} (h : R operand operand)
    {operators : List Kind} (hoperators : operators ⊆ phraseKinds) (fuel : Nat) (left : Expr) :
    R (Grammar.chain operators operand fuel left) (Grammar.chain operators operand fuel left) := by
  induction fuel generalizing left with
  | zero => exact hR.pure left
  | succ fuel ih =>
    refine hR.bind (hR.accept? hoperators) fun o => ?_
    cases o with
    | none => exact hR.pure left
    | some operator => exact hR.bind h fun right => ih _

lemma level (hR : Phrasal phraseKinds @R) {operand : Parser Expr} (h : R operand operand)
    (rule : Rule) {operators : List Sign} (hoperators : operators.map Kind.sign ⊆ phraseKinds)
    (fuel : Nat) :
    R (Grammar.level rule operators operand fuel) (Grammar.level rule operators operand fuel) :=
  hR.traced rule (hR.bind h fun first => hR.chain h hoperators fuel first)

lemma equality (hR : Phrasal phraseKinds @R) {unary : Parser Expr} (h : R unary unary)
    (fuel : Nat) :
    R (Grammar.equality unary fuel) (Grammar.equality unary fuel) := by
  have hfactor : R (Grammar.factor unary fuel) (Grammar.factor unary fuel) :=
    hR.level h .factor (by decide) fuel
  have hterm : R (Grammar.term unary fuel) (Grammar.term unary fuel) :=
    hR.level hfactor .term (by decide) fuel
  have hcomparison : R (Grammar.comparison unary fuel) (Grammar.comparison unary fuel) :=
    hR.level hterm .comparison (by decide) fuel
  exact hR.level hcomparison .equality (by decide) fuel

lemma primary (hR : Phrasal phraseKinds @R) {p : Parser Expr} (h : R p p) :
    R (Grammar.primary p) (Grammar.primary p) := by
  refine hR.traced _ (hR.bind (hR.accept? (by decide)) fun o => ?_)
  cases o with
  | some token => exact hR.pure _
  | none =>
    refine hR.bind (hR.accept? (by decide)) fun o => ?_
    cases o with
    | some token => exact hR.pure _
    | none =>
      refine hR.bind (hR.accept? (by decide)) fun o => ?_
      cases o with
      | some paren =>
        exact hR.bind h fun inner => hR.bind (hR.expect (by decide) (by decide)) fun _ => hR.pure _
      | none => exact hR.fail

/-- The relation holds of expressions, and of the two categories they go through, when it passes
from the parts of an assignment to the whole. -/
lemma expression_assignment_unary (hR : Phrasal phraseKinds @R)
    (hsucc : ∀ fuel, R (Grammar.unary fuel) (Grammar.unary fuel) →
      R (Grammar.assignment fuel) (Grammar.assignment fuel) →
        R (Grammar.assignment (fuel + 1)) (Grammar.assignment (fuel + 1))) (fuel : Nat) :
    R (Grammar.expression fuel) (Grammar.expression fuel) ∧
      R (Grammar.assignment fuel) (Grammar.assignment fuel) ∧
        R (Grammar.unary fuel) (Grammar.unary fuel) := by
  induction fuel with
  | zero => exact ⟨hR.fail, hR.fail, hR.fail⟩
  | succ fuel ih =>
    obtain ⟨hexpression, hassignment, hunary⟩ := ih
    refine ⟨hR.traced _ hassignment, hsucc fuel hunary hassignment, ?_⟩
    refine hR.traced _ (hR.bind (hR.accept? (by decide)) fun o => ?_)
    cases o with
    | some operator => exact hR.bind hunary fun right => hR.pure _
    | none => exact hR.primary hexpression

/-- The relation passes from the parts of an assignment to the whole when it holds of looking at
the text and of blaming a part of it. -/
lemma assignment_succ (hR : Phrasal phraseKinds @R) (hunread : R Parser.unread Parser.unread)
    (htarget : ∀ blamed, R (Parser.failAtTarget blamed : Parser Expr) (Parser.failAtTarget blamed))
    {fuel : Nat} (hunary : R (Grammar.unary fuel) (Grammar.unary fuel))
    (hassignment : R (Grammar.assignment fuel) (Grammar.assignment fuel)) :
    R (Grammar.assignment (fuel + 1)) (Grammar.assignment (fuel + 1)) := by
  refine hR.traced _ (hR.bind (hR.equality hunary fuel) fun target => ?_)
  refine hR.bind hunread fun before => hR.bind (hR.accept? (by decide)) fun o => ?_
  cases o with
  | none => exact hR.pure _
  | some _ =>
    refine hR.bind hassignment fun value => ?_
    cases target with
    | name token => exact hR.pure _
    | literal | grouping | unary | binary | assign | missing => exact htarget _

/-! ### Statements without blocks -/

variable {fuel : Nat}

lemma varDeclaration (hR : Phrasal clauseKinds @R) (h : R (expression fuel) (expression fuel))
    (keyword : Token) :
    R (Grammar.varDeclaration fuel keyword) (Grammar.varDeclaration fuel keyword) := by
  refine hR.traced _ (hR.bind (hR.expect (by decide) (by decide)) fun name =>
    hR.bind (hR.accept? (by decide)) fun o => ?_)
  have hsemicolon : ∀ s : Stmt,
      R (Parser.expect (.sign .semicolon) .semicolonAfterVariable >>= fun _ => Pure.pure s)
        (Parser.expect (.sign .semicolon) .semicolonAfterVariable >>= fun _ => Pure.pure s) :=
    fun s => hR.bind (hR.expect (by decide) (by decide)) fun _ => hR.pure s
  cases o with
  | some _ => exact hR.bind h fun initial => hsemicolon _
  | none => exact hsemicolon _

lemma printStatement (hR : Phrasal clauseKinds @R) (h : R (expression fuel) (expression fuel))
    (keyword : Token) :
    R (Grammar.printStatement fuel keyword) (Grammar.printStatement fuel keyword) :=
  hR.traced _ (hR.bind h fun _ => hR.bind (hR.expect (by decide) (by decide)) fun _ => hR.pure _)

lemma ifStatement (hR : Phrasal clauseKinds @R)
    (hexpression : R (expression fuel) (expression fuel)) {p q : Parser Stmt} (h : R p q)
    (keyword : Token) :
    R (Grammar.ifStatement p fuel keyword) (Grammar.ifStatement q fuel keyword) := by
  refine hR.traced _ (hR.bind (hR.expect (by decide) (by decide)) fun opening => ?_)
  refine hR.bind hexpression fun condition => ?_
  refine hR.bind (hR.expect (by decide) (by decide)) fun closing => ?_
  refine hR.bind h fun consequence => hR.bind (hR.accept? (by decide)) fun o => ?_
  cases o with
  | some _ => exact hR.bind h fun alternative => hR.pure _
  | none => exact hR.pure _

/-- An expression with a semicolon looks at its first token. -/
lemma expressionStatement (hR : Phrasal clauseKinds @R) (hunread : R Parser.unread Parser.unread)
    (h : R (expression fuel) (expression fuel)) :
    R (Grammar.expressionStatement fuel) (Grammar.expressionStatement fuel) := by
  refine hR.traced _ (hR.bind hunread fun before => hR.bind h fun e => ?_)
  exact hR.bind (hR.expect (by decide) (by decide)) fun _ => hR.pure _

/-- A declaration tries to read a variable or a statement. -/
lemma attempt (hR : Phrasal clauseKinds @R) (mode mode' : Mode)
    (hexpression : R (expression fuel) (expression fuel))
    (hstatement : R (statement mode fuel) (statement mode' fuel)) :
    R (Grammar.attempt mode fuel) (Grammar.attempt mode' fuel) := by
  refine hR.bind (hR.accept? (by decide)) fun o => ?_
  cases o with
  | some keyword => exact hR.varDeclaration hexpression keyword
  | none => exact hstatement

end Phrasal

/-! ### Statements -/

namespace Sequential

lemma phrasal (hR : Sequential @R) {kinds : List Kind} : Phrasal kinds @R where
  pure := hR.pure
  bind := hR.bind
  traced := hR.traced
  accept? _ := hR.accept? _
  expect _ _ := hR.expect _ _
  fail := hR.fail _

variable {fuel : Nat}

lemma blockStatement (hR : Sequential @R) {p q : Parser (List Stmt)} (h : R p q)
    (brace : Token) : R (Grammar.blockStatement p brace) (Grammar.blockStatement q brace) :=
  hR.traced _ (hR.bind h fun _ => hR.bind (hR.expect _ _) fun _ => hR.pure _)

/-- Declarations go by the next token. -/
lemma declarations_succ (hR : Sequential @R) (hunread : R Parser.unread Parser.unread)
    (mode mode' : Mode) (closing : List Kind)
    (hdeclaration : R (declaration mode fuel) (declaration mode' fuel))
    (hdeclarations : R (declarations mode closing fuel) (declarations mode' closing fuel)) :
    R (declarations mode closing (fuel + 1)) (declarations mode' closing (fuel + 1)) := by
  refine hR.bind hunread fun ts => ?_
  cases ts with
  | nil => exact hR.pure _
  | cons next ts =>
    by_cases hnext : next.kind ∈ closing
    · simp only [hnext, if_true]
      exact hR.pure _
    · simp only [hnext, if_false]
      exact hR.bind hdeclaration fun first => hR.bind hdeclarations fun others => hR.pure _

lemma statement_succ (hR : Sequential @R) (mode mode' : Mode)
    (hexpression : R (expression fuel) (expression fuel))
    (hstart : R (Grammar.expressionStatement fuel) (Grammar.expressionStatement fuel))
    (hstatement : R (statement mode fuel) (statement mode' fuel))
    (hblock : R (declarations mode [.sign .rightBrace] fuel)
      (declarations mode' [.sign .rightBrace] fuel)) :
    R (statement mode (fuel + 1)) (statement mode' (fuel + 1)) := by
  refine hR.traced _ (hR.bind (hR.accept? _) fun o => ?_)
  cases o with
  | some keyword => exact hR.phrasal.ifStatement hexpression hstatement keyword
  | none =>
    refine hR.bind (hR.accept? _) fun o => ?_
    cases o with
    | some keyword => exact hR.phrasal.printStatement hexpression keyword
    | none =>
      refine hR.bind (hR.accept? _) fun o => ?_
      cases o with
      | some brace => exact hR.blockStatement hblock brace
      | none => exact hstart

/-- The relation holds of statements and declarations in two modes when it holds of expressions,
passes from what a declaration tries to the declaration, and from one declaration to several. -/
lemma statement_declaration_declarations_of_attempt (hR : Sequential @R) (mode mode' : Mode)
    (hexpression : ∀ fuel, R (expression fuel) (expression fuel))
    (hstart : ∀ fuel, R (Grammar.expressionStatement fuel) (Grammar.expressionStatement fuel))
    (hattempt : ∀ fuel, R (Grammar.attempt mode fuel) (Grammar.attempt mode' fuel) →
      R (declaration mode (fuel + 1)) (declaration mode' (fuel + 1)))
    (hsucc : ∀ closing fuel, R (declaration mode fuel) (declaration mode' fuel) →
      R (declarations mode closing fuel) (declarations mode' closing fuel) →
        R (declarations mode closing (fuel + 1)) (declarations mode' closing (fuel + 1)))
    (fuel : Nat) :
    R (Grammar.statement mode fuel) (Grammar.statement mode' fuel) ∧
      R (Grammar.declaration mode fuel) (Grammar.declaration mode' fuel) ∧
        ∀ closing, R (Grammar.declarations mode closing fuel)
          (Grammar.declarations mode' closing fuel) := by
  induction fuel with
  | zero => exact ⟨hR.fail _, hR.fail _, fun _ => hR.pure _⟩
  | succ fuel ih =>
    obtain ⟨hstatement, hdeclaration, hdeclarations⟩ := ih
    refine ⟨?_, ?_, fun closing => hsucc closing fuel hdeclaration (hdeclarations closing)⟩
    · exact hR.statement_succ mode mode' (hexpression fuel) (hstart fuel) hstatement
        (hdeclarations _)
    · exact hattempt fuel (hR.phrasal.attempt mode mode' (hexpression fuel) hstatement)

/-- The relation holds of statements and declarations in two modes when it holds of expressions, is
kept by skipping broken declarations in these modes, and passes from one declaration to several. -/
lemma statement_declaration_declarations (hR : Sequential @R) (mode mode' : Mode)
    (hexpression : ∀ fuel, R (expression fuel) (expression fuel))
    (hstart : ∀ fuel, R (Grammar.expressionStatement fuel) (Grammar.expressionStatement fuel))
    (hrecovering : ∀ {p q : Parser Stmt}, R p q → R (recovering mode p) (recovering mode' q))
    (hsucc : ∀ closing fuel, R (declaration mode fuel) (declaration mode' fuel) →
      R (declarations mode closing fuel) (declarations mode' closing fuel) →
        R (declarations mode closing (fuel + 1)) (declarations mode' closing (fuel + 1)))
    (fuel : Nat) :
    R (Grammar.statement mode fuel) (Grammar.statement mode' fuel) ∧
      R (Grammar.declaration mode fuel) (Grammar.declaration mode' fuel) ∧
        ∀ closing, R (Grammar.declarations mode closing fuel)
          (Grammar.declarations mode' closing fuel) :=
  hR.statement_declaration_declarations_of_attempt mode mode' hexpression hstart
    (fun _ h => hR.traced _ (hrecovering h)) hsucc fuel

/-- The relation holds of statements and declarations in two modes when it holds of expressions and
of looking at the text, and passes from what a declaration tries to the declaration. -/
lemma statement_declaration_declarations_of_unread (hR : Sequential @R) (mode mode' : Mode)
    (hunread : R Parser.unread Parser.unread)
    (hexpression : ∀ fuel, R (expression fuel) (expression fuel))
    (hattempt : ∀ fuel, R (Grammar.attempt mode fuel) (Grammar.attempt mode' fuel) →
      R (declaration mode (fuel + 1)) (declaration mode' (fuel + 1)))
    (fuel : Nat) :
    R (Grammar.statement mode fuel) (Grammar.statement mode' fuel) ∧
      R (Grammar.declaration mode fuel) (Grammar.declaration mode' fuel) ∧
        ∀ closing, R (Grammar.declarations mode closing fuel)
          (Grammar.declarations mode' closing fuel) :=
  hR.statement_declaration_declarations_of_attempt mode mode' hexpression
    (fun fuel => hR.phrasal.expressionStatement hunread (hexpression fuel)) hattempt
    (fun closing _ => hR.declarations_succ hunread mode mode' closing) fuel

end Sequential

namespace Compositional

lemma sequential (hR : Compositional @R) : Sequential @R where
  pure := hR.pure
  bind := hR.bind
  traced := hR.traced
  accept? := hR.accept?
  expect := hR.expect
  fail := hR.fail

lemma level (hR : Compositional @R) {operand : Parser Expr} (h : R operand operand) (rule : Rule)
    (operators : List Sign) (hoperators : operators.map Kind.sign ⊆ phraseKinds) (fuel : Nat) :
    R (Grammar.level rule operators operand fuel) (Grammar.level rule operators operand fuel) :=
  hR.sequential.phrasal.level h rule hoperators fuel

lemma equality (hR : Compositional @R) {unary : Parser Expr} (h : R unary unary) (fuel : Nat) :
    R (Grammar.equality unary fuel) (Grammar.equality unary fuel) :=
  hR.sequential.phrasal.equality h fuel

/-- The relation holds of expressions, and of the two categories they go through. -/
lemma expression_assignment_unary (hR : Compositional @R) (fuel : Nat) :
    R (Grammar.expression fuel) (Grammar.expression fuel) ∧
      R (Grammar.assignment fuel) (Grammar.assignment fuel) ∧
        R (Grammar.unary fuel) (Grammar.unary fuel) :=
  hR.sequential.phrasal.expression_assignment_unary
    (fun _ => hR.sequential.phrasal.assignment_succ hR.unread hR.failAtTarget) fuel

lemma expression (hR : Compositional @R) (fuel : Nat) :
    R (Grammar.expression fuel) (Grammar.expression fuel) :=
  (hR.expression_assignment_unary fuel).1

lemma varDeclaration (hR : Compositional @R) (fuel : Nat) (keyword : Token) :
    R (Grammar.varDeclaration fuel keyword) (Grammar.varDeclaration fuel keyword) :=
  hR.sequential.phrasal.varDeclaration (hR.expression fuel) keyword

lemma printStatement (hR : Compositional @R) (fuel : Nat) (keyword : Token) :
    R (Grammar.printStatement fuel keyword) (Grammar.printStatement fuel keyword) :=
  hR.sequential.phrasal.printStatement (hR.expression fuel) keyword

lemma ifStatement (hR : Compositional @R) {p q : Parser Stmt} (h : R p q) (fuel : Nat)
    (keyword : Token) :
    R (Grammar.ifStatement p fuel keyword) (Grammar.ifStatement q fuel keyword) :=
  hR.sequential.phrasal.ifStatement (hR.expression fuel) h keyword

lemma blockStatement (hR : Compositional @R) {p q : Parser (List Stmt)} (h : R p q)
    (brace : Token) : R (Grammar.blockStatement p brace) (Grammar.blockStatement q brace) :=
  hR.sequential.blockStatement h brace

/-- The relation holds of statements and declarations in two modes when it is kept by skipping
broken declarations in these modes. -/
lemma statement_declaration_declarations (hR : Compositional @R) (mode mode' : Mode)
    (hrecovering : ∀ {p q : Parser Stmt}, R p q → R (recovering mode p) (recovering mode' q))
    (fuel : Nat) :
    R (Grammar.statement mode fuel) (Grammar.statement mode' fuel) ∧
      R (Grammar.declaration mode fuel) (Grammar.declaration mode' fuel) ∧
        ∀ closing, R (Grammar.declarations mode closing fuel)
          (Grammar.declarations mode' closing fuel) :=
  hR.sequential.statement_declaration_declarations_of_unread mode mode' hR.unread hR.expression
    (fun _ h => hR.traced _ (hrecovering h)) fuel

end Compositional

end LoxScript.Grammar
