import LoxScript.Grammar.Expression

/-!
# Reading statements

    declaration → "var" IDENTIFIER ("=" expression)? ";" | statement
    statement   → "if" "(" expression ")" statement ("else" statement)?
                | "print" expression ";" | block | expression ";"
    block       → braces around declaration*

An `else` belongs to the nearest `if` that can have it.  When reading does not stop at the first
mistake, the declaration in which a mistake is found is given up: the rest of it is skipped up to
its end, or up to the next token that can only start a statement.
-/

namespace LoxScript

/-- What to do at a mistake. -/
inductive Mode where
  /-- Stop. -/
  | failFast
  /-- Note it, and read on after the broken declaration. -/
  | recovering
  deriving DecidableEq, Repr

namespace Grammar

open LoxScript.Parser

/-- The kinds of token that can only start a statement. -/
def starters : List Kind :=
  [.keyword .classWord, .keyword .funWord, .keyword .varWord, .keyword .forWord, .keyword .ifWord,
   .keyword .whileWord, .keyword .printWord, .keyword .returnWord, .sign .leftBrace]

/-- Where to read on after a mistake: at least one token is skipped, then all up to a semicolon that
has just been skipped, or to a token that starts a statement. -/
def resync : List Token → List Token
  | [] => []
  | t :: rest =>
    if t.kind = .sign .semicolon then rest
    else
      match rest with
      | [] => []
      | next :: _ => if next.kind ∈ starters then rest else resync rest

/-- Reads a declaration; when reading goes on after mistakes, a broken one is skipped. -/
def recovering (mode : Mode) (p : Parser Stmt) : Parser (Option Stmt) :=
  fun ts =>
    match p ts with
    | ⟨spans, overcome, .ok (s, rest)⟩ => ⟨spans, overcome, .ok (some s, rest)⟩
    | ⟨spans, overcome, .error failure⟩ =>
      match mode with
      | .failFast => ⟨spans, overcome, .error failure⟩
      | .recovering => ⟨spans, overcome ++ [failure], .ok (none, resync failure.unread)⟩

/-- The rest of a variable declaration. -/
def varDeclaration (fuel : Nat) (keyword : Token) : Parser Stmt :=
  traced .varDecl do
    let name ← expect .identifier .variableName
    match ← accept? [.sign .equal] with
    | some _ =>
      let initial ← expression fuel
      let _ ← expect (.sign .semicolon) .semicolonAfterVariable
      pure (.var keyword name (some initial))
    | none =>
      let _ ← expect (.sign .semicolon) .semicolonAfterVariable
      pure (.var keyword name none)

/-- The rest of a print statement. -/
def printStatement (fuel : Nat) (keyword : Token) : Parser Stmt :=
  traced .printStmt do
    let value ← expression fuel
    let _ ← expect (.sign .semicolon) .semicolonAfterValue
    pure (.print keyword value)

/-- An expression with a semicolon. -/
def expressionStatement (fuel : Nat) : Parser Stmt :=
  traced .exprStmt do
    let before ← unread
    let e ← expression fuel
    let _ ← expect (.sign .semicolon) .semicolonAfterExpression
    pure (.expression (before.headD (Token.atEnd 1)) e)

/-- The rest of a conditional statement. -/
def ifStatement (statement : Parser Stmt) (fuel : Nat) (keyword : Token) : Parser Stmt :=
  traced .ifStmt do
    let _ ← expect (.sign .leftParen) .parenAfterIf
    let condition ← expression fuel
    let _ ← expect (.sign .rightParen) .parenAfterCondition
    let consequence ← statement
    match ← accept? [.keyword .elseWord] with
    | some _ =>
      let alternative ← statement
      pure (.ifElse keyword condition consequence alternative)
    | none => pure (.ifThen keyword condition consequence)

/-- The rest of a block. -/
def blockStatement (declarations : Parser (List Stmt)) (brace : Token) : Parser Stmt :=
  traced .block do
    let body ← declarations
    let _ ← expect (.sign .rightBrace) .braceAfterBlock
    pure (.block brace body)

mutual

/-- A declaration of a variable, or a statement.  There is none where a broken one was skipped. -/
def declaration (mode : Mode) : Nat → Parser (Option Stmt)
  | 0 => fail .expression
  | fuel + 1 =>
    traced .declaration (recovering mode do
      match ← accept? [.keyword .varWord] with
      | some keyword => varDeclaration fuel keyword
      | none => statement mode fuel)

/-- A statement that declares nothing at its top. -/
def statement (mode : Mode) : Nat → Parser Stmt
  | 0 => fail .expression
  | fuel + 1 =>
    traced .statement do
      match ← accept? [.keyword .ifWord] with
      | some keyword => ifStatement (statement mode fuel) fuel keyword
      | none =>
        match ← accept? [.keyword .printWord] with
        | some keyword => printStatement fuel keyword
        | none =>
          match ← accept? [.sign .leftBrace] with
          | some brace => blockStatement (declarations mode [.sign .rightBrace] fuel) brace
          | none => expressionStatement fuel

/-- Declarations up to a token of one of the closing kinds or to the end of the input. -/
def declarations (mode : Mode) (closing : List Kind) : Nat → Parser (List Stmt)
  | 0 => pure []
  | fuel + 1 => do
    match ← unread with
    | [] => pure []
    | next :: _ =>
      if next.kind ∈ closing then pure []
      else
        let first ← declaration mode fuel
        let others ← declarations mode closing fuel
        pure (first.toList ++ others)

end

end Grammar

end LoxScript
