import LoxLexer.Literal
import LoxLexer.Position

/-!
# Tokens

A token is a kind together with the lexeme it was read from, the value it
carries, and its place in the source. Nothing ties these parts together in
the type: a host may build any token it likes, and those that a scan returns
are consistent because `ofLexeme` makes them so.

A listing shows a token by its kind and its lexeme, and by its literal where
it has one.
-/

namespace LoxLexer

/-- A token of a source. -/
structure Token where
  /-- What the token is. -/
  kind : Kind
  /-- The text it was read from. -/
  lexeme : String
  /-- The value it carries. -/
  literal : Literal
  /-- The line on which it begins. -/
  line : Nat
  /-- Where its lexeme stands. -/
  span : Span
deriving DecidableEq, Repr

namespace Token

/-- The token of a lexeme that begins at a given place. -/
def ofLexeme (kind : Kind) (lexeme : List Char) (place : Position) : Token where
  kind := kind
  lexeme := String.ofList lexeme
  literal := .ofLexeme kind lexeme
  line := place.line
  span := ⟨place.offset, (place.after lexeme).offset⟩

/-- The end of the source, as a token without a lexeme. -/
def eof (place : Position) : Token where
  kind := .eof
  lexeme := ""
  literal := .none
  line := place.line
  span := ⟨place.offset, place.offset⟩

/-- How a listing shows a token. A token without a literal ends in a blank if
its lexeme is empty, as at the end of the source. -/
def text (t : Token) : String :=
  t.kind.name ++ " " ++ t.lexeme ++
    if t.literal.isNone then "" else " " ++ t.literal.text

/-- Whether two tokens are equal in all their parts, numbers being compared as
numbers. -/
def equals (a b : Token) : Bool :=
  a.kind == b.kind && a.lexeme == b.lexeme && a.literal.equals b.literal &&
    a.line == b.line && a.span == b.span

end Token

end LoxLexer
