/-!
# Rows and columns of a text

A report shows a place to a reader as a row and a column. These are counted
as a text editor would: in characters and not in bytes, and with a line
ending at everything that Unicode takes for the end of a line, not at line
feeds alone. So they may differ from the lines that the scanner counts.

`LineIndex` holds where the lines of a text begin, worked out once for the
whole text, so that looking up a place takes no second walk over it.
-/

namespace LoxLexer

/-- Whether a character ends a line: a line feed, a vertical tab, a form feed,
a carriage return, a next-line character, a line or a paragraph separator. -/
def endsLine (c : Char) : Bool :=
  c = '\n' || c = '\x0b' || c = '\x0c' || c = '\r' || c = '\u0085' ||
    c = '\u2028' || c = '\u2029'

/-- Where lines begin after the first, in a text of which `n` characters have
been passed. A carriage return and the line feed behind it end one line
together. The end of the text begins no line, even behind the end of one. -/
def lineStartsFrom : (n : Nat) → List Char → List Nat
  | _, [] => []
  | n, c :: cs =>
    if endsLine c && !(c = '\r' && cs.head? = some '\n') && !cs.isEmpty then
      (n + 1) :: lineStartsFrom (n + 1) cs
    else lineStartsFrom (n + 1) cs

/-- The lines of a text. -/
structure LineIndex where
  /-- How many characters stand before each line but the first. -/
  laterStarts : List Nat
  /-- The number of characters of the text. -/
  length : Nat
deriving DecidableEq, Repr

namespace LineIndex

/-- The lines of a text. A text without characters is one empty line. -/
def ofText (text : List Char) : LineIndex :=
  ⟨lineStartsFrom 0 text, text.length⟩

/-- The starts of the later lines that a place has reached. -/
def reached (lines : LineIndex) (n : Nat) : List Nat :=
  lines.laterStarts.takeWhile (· ≤ n)

/-- The row of a place behind `n` characters, counted from one. -/
def row (lines : LineIndex) (n : Nat) : Nat :=
  (lines.reached n).length + 1

/-- The column of a place behind `n` characters, counted from one. -/
def column (lines : LineIndex) (n : Nat) : Nat :=
  n - (lines.reached n).getLastD 0 + 1

end LineIndex

end LoxLexer
