import LoxLexer.Listing

/-!
# Sessions

A host may scan and run many sources over one collection of errors, report
errors of its own, and clear the collection in between. A session is such a
sequence of steps. Each step gives an answer and leaves a collection for the
next one.
-/

namespace LoxLexer

/-- One thing that a host does in a session. -/
inductive Step where
  /-- Scans a source. -/
  | scan (source : String)
  /-- Runs a source under a name. -/
  | run (path source : String)
  /-- Reports an error of its own. -/
  | report (e : LexError)
  /-- Clears the collection. -/
  | clear
  /-- Asks for the collected errors. -/
  | errors
deriving DecidableEq, Repr

/-- What a step answers. -/
inductive Answer where
  /-- The tokens of a scan. -/
  | tokens (tokens : List Token)
  /-- What a run shows. -/
  | shown (shown : Shown)
  /-- The collected errors. -/
  | errors (errors : List LexError)
  /-- Nothing. -/
  | done
deriving DecidableEq, Repr

namespace Step

/-- Takes one step over a collection of errors. -/
def take (step : Step) (diagnostics : Diagnostics) :
    Except ReportError (Answer × Diagnostics) :=
  match step with
  | .scan source =>
    let (tokens, diagnostics) := LoxLexer.scan source diagnostics
    .ok (.tokens tokens, diagnostics)
  | .run path source => do
    let (shown, diagnostics) ← LoxLexer.run path source diagnostics
    return (.shown shown, diagnostics)
  | .report e => .ok (.done, diagnostics.report e)
  | .clear => .ok (.done, diagnostics.clear)
  | .errors => .ok (.errors diagnostics.toList, diagnostics)

end Step

/-- Takes the steps of a session in order, and gives the answer of each and
the collection that it left. -/
def session : List Step → Diagnostics →
    Except ReportError (List (Answer × Diagnostics))
  | [], _ => .ok []
  | step :: steps, diagnostics => do
    let taken ← step.take diagnostics
    let later ← session steps taken.2
    return taken :: later

end LoxLexer
