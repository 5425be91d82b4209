import LoxScript.Text.Bytes
import LoxScript.Decimal.Layout

/-!
# Tokens

A token is a word of the language together with where it stood: its kind, the exact text it was
read from, the value it denotes if it is a literal, and its line.  Tokens need not come from a
script; a list of tokens written by hand may hold kinds the language does not know and literals it
has no value for, and those are kept here too, so that the later stages can say what is wrong.
-/

namespace LoxScript

/-- The signs of the language: brackets, separators and operators. -/
inductive Sign where
  | leftParen | rightParen | leftBrace | rightBrace | comma | dot | minus | plus | semicolon
  | slash | star | bang | bangEqual | equal | equalEqual | greater | greaterEqual | less | lessEqual
  deriving DecidableEq, Repr

/-- The reserved words of the language. -/
inductive Keyword where
  | andWord | classWord | elseWord | falseWord | forWord | funWord | ifWord | nilWord | orWord
  | printWord | returnWord | superWord | thisWord | trueWord | varWord | whileWord
  deriving DecidableEq, Repr

namespace Sign

/-- Every sign once. -/
def all : List Sign :=
  [leftParen, rightParen, leftBrace, rightBrace, comma, dot, minus, plus, semicolon, slash, star,
   bang, bangEqual, equal, equalEqual, greater, greaterEqual, less, lessEqual]

/-- How a sign is written. -/
def text : Sign → Bytes
  | leftParen => utf8 "("
  | rightParen => utf8 ")"
  | leftBrace => utf8 "\x7b"
  | rightBrace => utf8 "\x7d"
  | comma => utf8 ","
  | dot => utf8 "."
  | minus => utf8 "-"
  | plus => utf8 "+"
  | semicolon => utf8 ";"
  | slash => utf8 "/"
  | star => utf8 "*"
  | bang => utf8 "!"
  | bangEqual => utf8 "!="
  | equal => utf8 "="
  | equalEqual => utf8 "=="
  | greater => utf8 ">"
  | greaterEqual => utf8 ">="
  | less => utf8 "<"
  | lessEqual => utf8 "<="

/-- The sign that is written as the given text. -/
def ofText? (t : Bytes) : Option Sign :=
  all.find? fun s => s.text == t

/-- The longest sign at the front of a text. -/
def front? (t : Bytes) : Option Sign :=
  (ofText? (t.take 2)).or (ofText? (t.take 1))

end Sign

namespace Keyword

/-- Every reserved word once. -/
def all : List Keyword :=
  [andWord, classWord, elseWord, falseWord, forWord, funWord, ifWord, nilWord, orWord, printWord,
   returnWord, superWord, thisWord, trueWord, varWord, whileWord]

/-- How a reserved word is written. -/
def text : Keyword → Bytes
  | andWord => utf8 "and"
  | classWord => utf8 "class"
  | elseWord => utf8 "else"
  | falseWord => utf8 "false"
  | forWord => utf8 "for"
  | funWord => utf8 "fun"
  | ifWord => utf8 "if"
  | nilWord => utf8 "nil"
  | orWord => utf8 "or"
  | printWord => utf8 "print"
  | returnWord => utf8 "return"
  | superWord => utf8 "super"
  | thisWord => utf8 "this"
  | trueWord => utf8 "true"
  | varWord => utf8 "var"
  | whileWord => utf8 "while"

/-- The name under which a reserved word is listed: its text in capitals. -/
def name (k : Keyword) : Bytes :=
  k.text.map (· - 32)

/-- The reserved word that is written as the given text. -/
def ofText? (t : Bytes) : Option Keyword :=
  all.find? fun k => k.text == t

end Keyword

/-- What sort of word a token is. -/
inductive Kind where
  /-- The end of the input, which follows the last word. -/
  | endOfInput
  | identifier
  | number
  | string
  | sign (s : Sign)
  | keyword (k : Keyword)
  /-- A kind the language does not have, under the name it was given. -/
  | unknown (name : Bytes)
  deriving DecidableEq, Repr

namespace Kind

/-- The name under which a kind is shown. -/
def name : Kind → Bytes
  | endOfInput => utf8 "EOF"
  | identifier => utf8 "IDENTIFIER"
  | number => utf8 "NUMBER"
  | string => utf8 "STRING"
  | sign s => s.text
  | keyword k => k.name
  | unknown name => name

/-- The kinds of the language, each once. -/
def known : List Kind :=
  [endOfInput, identifier, number, string] ++ Sign.all.map sign ++ Keyword.all.map keyword

/-- The kind of the given name. -/
def ofName (n : Bytes) : Kind :=
  (known.find? fun k => k.name == n).getD (unknown n)

/-- The kind of a word made of letters, digits and underscores: a reserved word, or a name. -/
def ofWord (t : Bytes) : Kind :=
  match Keyword.ofText? t with
  | some k => keyword k
  | none => identifier

end Kind

/-- The value written down by a token or a tree. -/
inductive Literal where
  | nil
  | number (x : Float)
  | string (s : Bytes)
  | boolean (b : Bool)
  /-- A whole number, for which the language has no value: its numbers are all floating-point. -/
  | integer (n : Int)
  deriving DecidableEq

/-- The text of a truth value. -/
def Bytes.ofBool (b : Bool) : Bytes :=
  if b then utf8 "true" else utf8 "false"

/-- How a literal is shown in the description of a token.  A string stands as it is. -/
def Literal.describe : Literal → Bytes
  | nil => utf8 "nil"
  | number x => writeNumber Decimal.compact x
  | string s => s
  | boolean b => Bytes.ofBool b
  | integer n => Bytes.ofInt n

/-- A word of the language and where it stands. -/
structure Token where
  kind : Kind
  /-- The text the token was read from. -/
  lexeme : Bytes
  /-- The value the token denotes; `nil` for a token that denotes none. -/
  literal : Literal
  /-- The line on which the token starts. -/
  line : Int
  deriving DecidableEq

namespace Token

/-- The token that marks the end of the input, on the given line. -/
def atEnd (line : Int) : Token :=
  ⟨.endOfInput, [], .nil, line⟩

/-- The token in one line: its kind, its text and, if it has one, its literal. -/
def describe (t : Token) : Bytes :=
  t.kind.name ++ utf8 " " ++ t.lexeme ++
    (if t.literal = .nil then [] else utf8 " " ++ t.literal.describe)

end Token

end LoxScript
