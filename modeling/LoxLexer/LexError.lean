import LoxLexer.Position

/-!
# Lexical errors

Two things can be wrong with a source: a character may begin no lexeme, or a
string may have no closing quote. An error says which of the two it is, on
which line it was noticed, and which bytes are to blame. An unclosed string is
noticed at the end of the source, so its line is the last one, while its bytes
begin at the quote.
-/

namespace LoxLexer

/-- What is wrong. -/
inductive Fault where
  /-- A character that begins no lexeme. -/
  | unexpectedCharacter (c : Char)
  /-- A string without a closing quote. -/
  | unterminatedString
deriving DecidableEq, Repr

/-- The message that a fault is reported with. -/
def Fault.message : Fault → String
  | unexpectedCharacter c => "Unexpected character '" ++ c.toString ++ "'."
  | unterminatedString => "Unterminated string."

/-- A fault and its place. -/
structure LexError where
  /-- What is wrong. -/
  fault : Fault
  /-- The line on which it was noticed. -/
  line : Nat
  /-- The bytes to blame. -/
  span : Span
deriving DecidableEq, Repr

/-- The message that an error is reported with. -/
def LexError.message (e : LexError) : String :=
  e.fault.message

end LoxLexer
