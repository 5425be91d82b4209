import LoxScript.Grammar.Trace
import LoxScript.Grammar.Failure

/-!
# Reading tokens

A parser takes tokens from the front of a list.  It answers with a value and the tokens left, or
with a failure; besides, it tells which rules it tried and which failures it has already overcome.
Parsers are put together in sequence: what the first one tried and overcame comes before what the
second one did, and a failure of the first ends the whole.
-/

namespace LoxScript

/-- What a parser answers. -/
structure Reply (α : Type) where
  /-- The rules tried, in order. -/
  spans : List Span
  /-- The failures after which reading was resumed, in order. -/
  overcome : List Failure
  /-- The value and the tokens left, or the failure that ended the attempt. -/
  result : Except Failure (α × List Token)

/-- A way to read a value from the front of a list of tokens. -/
def Parser (α : Type) := List Token → Reply α

namespace Parser

variable {α β : Type}

/-- Reads nothing and gives the value. -/
@[inline] protected def pure (a : α) : Parser α :=
  fun ts => ⟨[], [], .ok (a, ts)⟩

/-- Reads with the first parser, then with the one it leads to. -/
@[inline] protected def bind (p : Parser α) (f : α → Parser β) : Parser β :=
  fun ts =>
    match p ts with
    | ⟨spans, overcome, .error failure⟩ => ⟨spans, overcome, .error failure⟩
    | ⟨spans, overcome, .ok (a, rest)⟩ =>
      match f a rest with
      | ⟨spans', overcome', result⟩ => ⟨spans ++ spans', overcome ++ overcome', result⟩

instance : Monad Parser where
  pure := Parser.pure
  bind := Parser.bind

/-- Notes that what the parser does is an attempt of the rule. -/
@[inline] def traced (rule : Rule) (p : Parser α) : Parser α :=
  fun ts =>
    match p ts with
    | ⟨spans, overcome, result⟩ => ⟨[.mk rule spans], overcome, result⟩

/-- The tokens still to be read. -/
def unread : Parser (List Token) :=
  fun ts => ⟨[], [], .ok (ts, ts)⟩

/-- Fails because of the next token. -/
def fail (what : Expected) : Parser α :=
  fun ts => ⟨[], [], .error ⟨.expected what, ts, ts⟩⟩

/-- Fails because of an assignment sign, given with all that followed it. -/
def failAtTarget (blamed : List Token) : Parser α :=
  fun ts => ⟨[], [], .error ⟨.invalidTarget, blamed, ts⟩⟩

/-- Takes the next token if its kind is among those given. -/
def accept? (kinds : List Kind) : Parser (Option Token) :=
  fun
    | [] => ⟨[], [], .ok (none, [])⟩
    | t :: rest => if t.kind ∈ kinds then ⟨[], [], .ok (some t, rest)⟩
      else ⟨[], [], .ok (none, t :: rest)⟩

/-- Takes the next token, which must be of the given kind. -/
def expect (kind : Kind) (what : Expected) : Parser Token :=
  fun
    | [] => fail what []
    | t :: rest => if t.kind = kind then ⟨[], [], .ok (t, rest)⟩ else fail what (t :: rest)

end Parser

end LoxScript
