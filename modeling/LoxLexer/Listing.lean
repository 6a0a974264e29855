import LoxLexer.Diagnostics
import LoxLexer.Report

/-!
# Listings

To run a source is to scan it, to report what is wrong with it, and to print
its tokens, one on a line. A run adds its errors to a collection that may hold
others, from earlier runs; it reports its own and leaves those alone. The
tokens are printed whatever has been reported.
-/

namespace LoxLexer

/-- Prints tokens, each on a line of its own. -/
def listing (tokens : List Token) : String :=
  String.join (tokens.map (fun t => t.text ++ "\n"))

/-- What a run shows. -/
structure Shown where
  /-- What is printed. -/
  output : String
  /-- What is reported, in order. -/
  reports : List Report
deriving DecidableEq, Repr

/-- The reports of the errors raised in a source, in order. -/
def reportAll (path : String) (source : String) (errors : List LexError) :
    Except ReportError (List Report) :=
  let lines := LineIndex.ofText source.toList
  errors.mapM (Report.ofError path lines)

/-- Runs a source: scans it, reports the errors that this scan adds to the
collection, and prints the tokens. -/
def run (path : String) (source : String) (diagnostics : Diagnostics) :
    Except ReportError (Shown × Diagnostics) := do
  let seen := diagnostics.errors.size
  let (tokens, diagnostics) := scan source diagnostics
  let reports ← reportAll path source (diagnostics.since seen)
  return (⟨listing tokens, reports⟩, diagnostics)

end LoxLexer
