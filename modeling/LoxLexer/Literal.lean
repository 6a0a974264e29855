import LoxLexer.Binary64.Shortest
import LoxLexer.Kind

/-!
# Literals

A string token carries the text between its quotes and a number token the
floating-point number nearest to its numeral; all other tokens carry nothing.
The literal of a lexeme depends on its kind and on the lexeme alone
(`ofLexeme`), never on where it stands.
-/

namespace LoxLexer

/-- The value that a token carries. -/
inductive Literal where
  /-- No value. -/
  | none
  /-- The text of a string. -/
  | string (text : String)
  /-- The value of a number. -/
  | number (value : Binary64)
deriving DecidableEq, Repr

namespace Literal

/-- The literal of a lexeme of a given kind. A string lexeme has a quote at
either end, and its text is what is left between them. -/
def ofLexeme (kind : Kind) (lexeme : List Char) : Literal :=
  match kind with
  | .string => string (String.ofList lexeme.tail.dropLast)
  | .number => number (Binary64.ofNumeral lexeme)
  | _ => none

/-- The literal as a text: nothing for none, a string as it is, a number in
its shortest decimal. -/
def text : Literal → String
  | none => ""
  | string text => text
  | number value => value.text

/-- Whether there is no value. -/
def isNone : Literal → Bool
  | none => true
  | _ => false

/-- The text, where the value is a string. -/
def asString? : Literal → Option String
  | string text => some text
  | _ => Option.none

/-- The number, where the value is one. -/
def asNumber? : Literal → Option Binary64
  | number value => some value
  | _ => Option.none

/-- Whether two literals are equal, numbers being compared as numbers. -/
def equals : Literal → Literal → Bool
  | none, none => true
  | string a, string b => a == b
  | number a, number b => a.equals b
  | _, _ => false

/-- A literal equals itself unless it is not a number. -/
theorem equals_self_iff (l : Literal) :
    l.equals l = true ↔ ∀ x, l.asNumber? = some x → x.isNaN = false := by
  cases l <;> simp [equals, asNumber?]

end Literal

end LoxLexer
