import LoxScript.Grammar.Program

/-!
# Reading with an index

The rules of the grammar can also be carried out on an array of tokens that is never taken apart: an
index says which token comes next, and the rules look at the token at the index and at the one
before it.  Here is this way of reading, as a machine that stops with a *fault* wherever it is about
to do what must not happen: to look outside the array, to indent a line of the trace by less than
nothing, to come back from a declaration without having moved on, or to go on beyond a bound.

The array ends in an end of input, which is put there if need be.  Nothing in the definitions keeps
the index from running past it, or the token before the first one from being asked for.
-/

namespace LoxScript.Cursor

/-- What must not happen. -/
inductive Fault where
  /-- A token was asked for at an index where there is none. -/
  | outOfRange (index : Int)
  /-- A line of the trace was to be indented by less than nothing. -/
  | negativeIndent
  /-- A declaration in front of a token came back without an error where it had begun. -/
  | stuck
  /-- The bound on the rounds of a loop, or on the nesting, was reached. -/
  | exhausted
  deriving DecidableEq

/-- What stays the same during a reading. -/
structure Setup where
  tokens : List Token
  mode : Mode
  tracing : Bool

/-- What changes during a reading. -/
structure State where
  /-- The index of the token to be read next. -/
  current : Nat
  /-- The number of rules around the place. -/
  level : Int
  /-- The lines of the trace so far. -/
  trace : Bytes
  /-- The mistakes after which reading was resumed. -/
  errors : List SyntaxError

/-- How a part of a reading ends. -/
inductive Outcome (α : Type) where
  | ok (a : α) (s : State)
  | failed (e : SyntaxError) (s : State)
  | fault (f : Fault)

/-- A part of a reading. -/
def Walk (α : Type) := Setup → State → Outcome α

section Sequence

variable {α β : Type}

protected def Walk.pure (a : α) : Walk α :=
  fun _ s => .ok a s

protected def Walk.bind (m : Walk α) (k : α → Walk β) : Walk β :=
  fun c s =>
    match m c s with
    | .ok a s' => k a c s'
    | .failed e s' => .failed e s'
    | .fault f => .fault f

instance : Monad Walk where
  pure := Walk.pure
  bind := Walk.bind

/-- Ends with the mistake. -/
def fail (e : SyntaxError) : Walk α :=
  fun _ s => .failed e s

/-- Ends with the fault. -/
def breakDown (f : Fault) : Walk α :=
  fun _ _ => .fault f

/-- Does one thing more at the end, also after a mistake. -/
def ensuring (m : Walk α) (last : Walk Unit) : Walk α :=
  fun c s =>
    match m c s with
    | .ok a s' => (last >>= fun _ => Walk.pure a) c s'
    | .failed e s' => (last >>= fun _ => fail e) c s'
    | .fault f => .fault f

end Sequence

/-! ### Single tokens -/

/-- The token at an index. -/
def fetch (index : Int) : Walk Token :=
  fun c s =>
    if index < 0 then .fault (.outOfRange index)
    else
      match c.tokens[index.toNat]? with
      | some t => .ok t s
      | none => .fault (.outOfRange index)

/-- The index of the next token. -/
def position : Walk Nat :=
  fun _ s => .ok s.current s

/-- The next token, which stays where it is. -/
def peek : Walk Token := do
  fetch (← position)

/-- The token before the next one. -/
def previous : Walk Token := do
  fetch ((← position) - 1)

def isAtEnd : Walk Bool := do
  return (← peek).kind = .endOfInput

def check (kind : Kind) : Walk Bool := do
  return (← peek).kind = kind

/-- Moves past the next token, whatever it is. -/
def step : Walk Unit :=
  fun _ s => .ok () { s with current := s.current + 1 }

/-- Moves past the next token unless that is an end of input, and gives the token then left
behind. -/
def advance : Walk Token := do
  if ← isAtEnd then previous
  else
    step
    previous

/-- Moves past the next token if its kind is among those given. -/
def moveOver : List Kind → Walk Bool
  | [] => pure false
  | kind :: kinds => do
    if ← check kind then
      let _ ← advance
      pure true
    else moveOver kinds

/-- Takes the next token if its kind is among those given. -/
def accept? (kinds : List Kind) : Walk (Option Token) := do
  if ← moveOver kinds then
    let t ← previous
    pure (some t)
  else pure none

/-- Fails because of the next token. -/
def failAtPeek {α : Type} (what : Expected) : Walk α := do
  let t ← peek
  fail ⟨.expected what, t, ← position⟩

/-- Takes the next token, which must be of the given kind. -/
def expect (kind : Kind) (what : Expected) : Walk Token := do
  if ← check kind then advance else failAtPeek what

/-! ### The trace -/

/-- Prints a line of the trace, indented by one less than the number of rules around it. -/
def printLine (mark : Bytes) (rule : Rule) : Walk Unit :=
  fun _ s =>
    if s.level - 1 < 0 then .fault .negativeIndent
    else .ok () { s with trace := s.trace ++ Span.line (s.level - 1).toNat mark rule }

/-- A rule begins: there is one rule more around what follows. -/
def enter (rule : Rule) : Walk Unit :=
  fun c s => printLine (utf8 "BEGIN ") rule c { s with level := s.level + 1 }

/-- A rule ends, and its last line stands below its first one. -/
def leave (rule : Rule) : Walk Unit := do
  printLine (utf8 "END ") rule
  fun _ s => .ok () { s with level := s.level - 1 }

/-- Notes in the trace, if there is one, that this is an attempt of the rule. -/
def traced {α : Type} (rule : Rule) (m : Walk α) : Walk α :=
  fun c s =>
    if c.tracing then (enter rule >>= fun _ => ensuring m (leave rule)) c s else m c s

/-! ### Expressions

Each rule of the grammar is carried out by the definition of the same name.
-/

/-- Reads further operands to the right of `left`, as long as one of the operators comes next. -/
def chain (operators : List Kind) (operand : Walk Expr) : Nat → Expr → Walk Expr
  | 0, _ => breakDown .exhausted
  | fuel + 1, left => do
    match ← accept? operators with
    | none => pure left
    | some operator =>
      let right ← operand
      chain operators operand fuel (.binary operator operator.lexeme left right)

/-- A level of binary operators that group to the left. -/
def level (rule : Rule) (operators : List Sign) (operand : Walk Expr) (fuel : Nat) : Walk Expr :=
  traced rule do
    let first ← operand
    chain (operators.map Kind.sign) operand fuel first

def equality (unary : Walk Expr) (fuel : Nat) : Walk Expr :=
  let factor := level .factor [.slash, .star] unary fuel
  let term := level .term [.minus, .plus] factor fuel
  let comparison := level .comparison [.greater, .greaterEqual, .less, .lessEqual] term fuel
  level .equality [.bangEqual, .equalEqual] comparison fuel

def primary (expression : Walk Expr) : Walk Expr :=
  traced .primary do
    match ← accept? [.keyword .falseWord, .keyword .trueWord, .keyword .nilWord, .number,
        .string] with
    | some token => pure (.literal token (Grammar.literalValue token))
    | none =>
      match ← accept? [.identifier] with
      | some token => pure (.name token)
      | none =>
        match ← accept? [.sign .leftParen] with
        | some paren =>
          let inner ← expression
          let _ ← expect (.sign .rightParen) .parenAfterExpression
          pure (.grouping paren inner)
        | none => failAtPeek .expression

mutual

def expression : Nat → Walk Expr
  | 0 => breakDown .exhausted
  | fuel + 1 => traced .expression (assignment fuel)

/-- The mistake of an assignment to something else than a name is found after the assigned
expression, but the sign of the assignment is to blame. -/
def assignment : Nat → Walk Expr
  | 0 => breakDown .exhausted
  | fuel + 1 =>
    traced .assignment do
      let target ← equality (unary fuel) fuel
      let before ← position
      match ← accept? [.sign .equal] with
      | none => pure target
      | some sign =>
        let value ← assignment fuel
        match target with
        | .name token => pure (.assign token value)
        | _ => fail ⟨.invalidTarget, sign, before⟩

def unary : Nat → Walk Expr
  | 0 => breakDown .exhausted
  | fuel + 1 =>
    traced .unary do
      match ← accept? [.sign .bang, .sign .minus] with
      | some operator =>
        let right ← unary fuel
        pure (.unary operator operator.lexeme right)
      | none => primary (expression fuel)

end

/-! ### Statements -/

/-- Moves on to a token that starts a statement, or past a semicolon. -/
def skip : Nat → Walk Unit
  | 0 => breakDown .exhausted
  | fuel + 1 => do
    if ← isAtEnd then pure ()
    else if (← previous).kind = .sign .semicolon then pure ()
    else if (← peek).kind ∈ Grammar.starters then pure ()
    else
      let _ ← advance
      skip fuel

/-- Moves past the token that could not be read, and on to where reading can be resumed. -/
def synchronize (fuel : Nat) : Walk Unit := do
  let _ ← advance
  skip fuel

/-- Notes a mistake. -/
def record (e : SyntaxError) : Walk Unit :=
  fun _ s => .ok () { s with errors := s.errors ++ [e] }

/-- Reads a declaration; when reading goes on after mistakes, a broken one is skipped. -/
def recovering (fuel : Nat) (m : Walk Stmt) : Walk (Option Stmt) :=
  fun c s =>
    match m c s with
    | .ok a s' => .ok (some a) s'
    | .failed e s' =>
      match c.mode with
      | .failFast => .failed e s'
      | .recovering => (do record e; synchronize fuel; pure none : Walk (Option Stmt)) c s'
    | .fault f => .fault f

/-- Makes sure that the part moves on, unless it began at an end of input. -/
def progressing {α : Type} (m : Walk α) : Walk α := do
  let before ← position
  let ended ← isAtEnd
  let a ← m
  let after ← position
  if !ended && after ≤ before then breakDown .stuck else pure a

def varDeclaration (fuel : Nat) (keyword : Token) : Walk Stmt :=
  traced .varDecl do
    let name ← expect .identifier .variableName
    match ← accept? [.sign .equal] with
    | some _ =>
      let initial ← expression fuel
      let _ ← expect (.sign .semicolon) .semicolonAfterVariable
      pure (.var keyword name (some initial))
    | none =>
      let _ ← expect (.sign .semicolon) .semicolonAfterVariable
      pure (.var keyword name none)

def printStatement (fuel : Nat) (keyword : Token) : Walk Stmt :=
  traced .printStmt do
    let value ← expression fuel
    let _ ← expect (.sign .semicolon) .semicolonAfterValue
    pure (.print keyword value)

def expressionStatement (fuel : Nat) : Walk Stmt :=
  traced .exprStmt do
    let start ← peek
    let e ← expression fuel
    let _ ← expect (.sign .semicolon) .semicolonAfterExpression
    pure (.expression start e)

def ifStatement (statement : Walk Stmt) (fuel : Nat) (keyword : Token) : Walk Stmt :=
  traced .ifStmt do
    let _ ← expect (.sign .leftParen) .parenAfterIf
    let condition ← expression fuel
    let _ ← expect (.sign .rightParen) .parenAfterCondition
    let consequence ← statement
    match ← accept? [.keyword .elseWord] with
    | some _ =>
      let alternative ← statement
      pure (.ifElse keyword condition consequence alternative)
    | none => pure (.ifThen keyword condition consequence)

def blockStatement (declarations : Walk (List Stmt)) (brace : Token) : Walk Stmt :=
  traced .block do
    let body ← declarations
    let _ ← expect (.sign .rightBrace) .braceAfterBlock
    pure (.block brace body)

mutual

def declaration : Nat → Walk (Option Stmt)
  | 0 => breakDown .exhausted
  | fuel + 1 =>
    progressing (traced .declaration (recovering fuel do
      match ← accept? [.keyword .varWord] with
      | some keyword => varDeclaration fuel keyword
      | none => statement fuel))

def statement : Nat → Walk Stmt
  | 0 => breakDown .exhausted
  | fuel + 1 =>
    traced .statement do
      match ← accept? [.keyword .ifWord] with
      | some keyword => ifStatement (statement fuel) fuel keyword
      | none =>
        match ← accept? [.keyword .printWord] with
        | some keyword => printStatement fuel keyword
        | none =>
          match ← accept? [.sign .leftBrace] with
          | some brace => blockStatement (declarations [.sign .rightBrace] fuel) brace
          | none => expressionStatement fuel

/-- The loop of a block, or of the whole program if nothing closes it. -/
def declarations (closing : List Kind) : Nat → Walk (List Stmt)
  | 0 => breakDown .exhausted
  | fuel + 1 => do
    if (← peek).kind ∈ closing then pure []
    else if ← isAtEnd then pure []
    else
      let first ← declaration fuel
      let others ← declarations closing fuel
      pure (first.toList ++ others)

end

/-! ### Programs -/

/-- The tokens, with an end of input after them unless there is one. -/
def closed (tokens : List Token) : List Token :=
  match tokens.getLast? with
  | none => [Token.atEnd 1]
  | some t => if t.kind = .endOfInput then tokens else tokens ++ [Token.atEnd t.line]

/-- What is known about a program after reading: the program or what is wrong with it, and the text
of the trace. -/
structure Report where
  result : Except Rejection Program
  trace : Bytes

/-- Reads a program from its tokens. -/
def read (mode : Mode) (tracing : Bool) (fuel : Nat) (tokens : List Token) : Except Fault Report :=
  match declarations [] fuel ⟨closed tokens, mode, tracing⟩ ⟨0, 0, [], []⟩ with
  | .ok statements ⟨_, _, trace, []⟩ => .ok ⟨.ok statements, trace⟩
  | .ok _ ⟨_, _, trace, errors⟩ => .ok ⟨.error (.every errors), trace⟩
  | .failed e s => .ok ⟨.error (.first e), s.trace⟩
  | .fault f => .error f

end LoxScript.Cursor
