import LoxLexer.Scan

/-!
# Collected errors

The usual host of a scan collects what is reported and decides later what to
do about it. `Diagnostics` is that collection. It grows at the end and is
emptied as a whole, so the errors of one scan are what lies behind those that
were there before it.

A host that only wants to print messages keeps a `MessageLog` instead, which
holds the line and the message of each error and nothing else.
-/

namespace LoxLexer

/-- The errors reported since the collection was last cleared, in the order in
which they were reported. -/
structure Diagnostics where
  /-- The errors. -/
  errors : Array LexError
deriving DecidableEq, Repr

namespace Diagnostics

/-- No errors. -/
def empty : Diagnostics :=
  ⟨#[]⟩

/-- Adds an error. -/
def report (diagnostics : Diagnostics) (e : LexError) : Diagnostics :=
  ⟨diagnostics.errors.push e⟩

/-- Whether anything has been reported. -/
def hadError (diagnostics : Diagnostics) : Bool :=
  !diagnostics.errors.isEmpty

/-- Forgets all errors. -/
def clear (_ : Diagnostics) : Diagnostics :=
  empty

/-- The errors in a list. -/
def toList (diagnostics : Diagnostics) : List LexError :=
  diagnostics.errors.toList

/-- The errors that were added after the first `seen`. -/
def since (seen : Nat) (diagnostics : Diagnostics) : List LexError :=
  diagnostics.toList.drop seen

/-- Nothing is in an empty collection. -/
@[simp] theorem toList_empty : empty.toList = [] := rfl

/-- An error is added at the end. -/
@[simp] theorem toList_report (diagnostics : Diagnostics) (e : LexError) :
    (diagnostics.report e).toList = diagnostics.toList ++ [e] := by
  simp [report, toList]

/-- Nothing is left when all is forgotten. -/
@[simp] theorem toList_clear (diagnostics : Diagnostics) :
    diagnostics.clear.toList = [] := rfl

/-- Something has been reported exactly when there is an error. -/
theorem hadError_iff (diagnostics : Diagnostics) :
    diagnostics.hadError = true ↔ diagnostics.toList ≠ [] := by
  simp [hadError, toList]

end Diagnostics

/-- Scans a source and adds its errors to a collection. -/
def scan (source : String) (diagnostics : Diagnostics) :
    List Token × Diagnostics :=
  scanWith Diagnostics.report diagnostics source

/-- A scan returns the tokens of its source, whatever has been collected. -/
@[simp] theorem fst_scan (source : String) (diagnostics : Diagnostics) :
    (scan source diagnostics).1 = tokensOf source := by
  rw [scan, scanWith_eq]

/-- A scan adds the errors of its source behind those that have been
collected. -/
@[simp] theorem toList_snd_scan (source : String) (diagnostics : Diagnostics) :
    (scan source diagnostics).2.toList =
      diagnostics.toList ++ errorsOf source := by
  rw [scan, scanWith_eq]
  induction errorsOf source generalizing diagnostics with
  | nil => simp
  | cons e later ih => rw [List.foldl_cons, ih]; simp

/-- The lines and messages of the errors reported so far. -/
abbrev MessageLog := Array (Nat × String)

/-- Notes the line and the message of an error. -/
def MessageLog.report (log : MessageLog) (e : LexError) : MessageLog :=
  log.push (e.line, e.message)

end LoxLexer
