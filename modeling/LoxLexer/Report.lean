import LoxLexer.LexError
import LoxLexer.LineIndex

/-!
# Reports

A report tells a reader about an error: what is wrong, in which file, row and
column, and on which line the scanner noticed it. Only the contents of a
report are fixed here; how it is drawn on a terminal is left to the command.

The place of a report is taken from the span of its error. The span counts
bytes, and the report reads it as counting characters. The two agree as long
as nothing beyond ASCII stands in front of the error; behind such characters
the report points further to the right than it should, and a report that
would point beyond the end of the source has no place at all.

A span that ends before it begins cannot be reported. The scanner raises none,
but a host may hand one over.
-/

namespace LoxLexer

/-- Where a report points, and the line that it names besides. -/
structure Label where
  /-- The name of the source. -/
  path : String
  /-- The row in the source, counted from one. -/
  row : Nat
  /-- The column in that row, counted from one. -/
  column : Nat
  /-- The line on which the error was noticed. -/
  line : Nat
deriving DecidableEq, Repr

namespace Label

/-- The place of a label: path, row and column. -/
def location (l : Label) : String :=
  l.path ++ ":" ++ toString l.row ++ ":" ++ toString l.column

/-- The note of a label, which names the line of the error. -/
def note (l : Label) : String :=
  "[line " ++ toString l.line ++ "]"

end Label

/-- What a reader is told about an error. -/
structure Report where
  /-- What is wrong. -/
  message : String
  /-- Where it is, unless that lies outside the source. -/
  label? : Option Label
deriving DecidableEq, Repr

/-- Why an error cannot be reported. -/
inductive ReportError where
  /-- Its span ends before it begins. -/
  | reversedSpan
deriving DecidableEq, Repr

/-- The message for an error that cannot be reported. -/
def ReportError.message : ReportError → String
  | reversedSpan => "Label start is after its end"

namespace Report

/-- Whether a span, read in characters, lies within a text of `length`
characters. It may begin at the end of the text, and it may reach one
character beyond that end. -/
def fits (length : Nat) (span : Span) : Bool :=
  span.start ≤ length && (span.stop ≤ span.start || span.stop ≤ length + 1)

/-- What a reader is told about an error, given the lines of its source. -/
def describing (path : String) (lines : LineIndex) (e : LexError) : Report where
  message := e.message
  label? :=
    if fits lines.length e.span then
      some ⟨path, lines.row e.span.start, lines.column e.span.start, e.line⟩
    else none

/-- The report of an error, given the lines of its source. -/
def ofError (path : String) (lines : LineIndex) (e : LexError) :
    Except ReportError Report :=
  if e.span.stop < e.span.start then .error .reversedSpan
  else .ok (describing path lines e)

/-- An error can be reported exactly when its span is not reversed. -/
theorem exists_ofError_eq_ok_iff (path : String) (lines : LineIndex)
    (e : LexError) :
    (∃ r, ofError path lines e = .ok r) ↔ e.span.start ≤ e.span.stop := by
  unfold ofError
  split
  · next h => simpa using h
  · next h => simpa using Nat.le_of_not_lt h

end Report

end LoxLexer
