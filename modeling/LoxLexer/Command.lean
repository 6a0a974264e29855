import LoxLexer.Folder
import LoxLexer.Invocation
import LoxLexer.Listing

/-!
# The command

Given a script, the command runs it and tells by its exit code whether
anything was reported. Given none, it runs each line of its standard input by
itself: nothing of one line is left for the next, and whatever is reported,
the command ends well when the input does.

A line is taken as it stands in the input. No character in it takes back
another one, as a backspace (U+0008) does where a line is edited while it is
read: what is said of lines here is meant of inputs without one.

Bytes that are not UTF-8 are refused. In a script they are found before the
script is run; on the standard input they are found when their line is
reached, and the lines before have been run by then.

Everything here is a function of the arguments, the folder and the bytes of
the input. The outer layer carries out what the outcome says.
-/

namespace LoxLexer

/-- What an execution of the command comes to. -/
structure Outcome where
  /-- The exit code. -/
  exitCode : Nat
  /-- What is printed. -/
  output : String
  /-- The errors reported in sources, in order. -/
  reports : List Report
  /-- Why the command could not do what it was asked for. -/
  complaint? : Option String
deriving DecidableEq, Repr

namespace Command

/-- The exit code for a script in which something was reported. -/
def dataError : Nat :=
  65

/-- The exit code of a command that failed. -/
def failure : Nat :=
  1

/-- The exit code for arguments that make no sense. -/
def usage : Nat :=
  2

/-- The name under which lines of the standard input are reported. -/
def inputName : String :=
  "<stdin>"

/-- What is said of a failure: what could not be done, and the reason. -/
def complaint (what reason : String) : String :=
  "Error: " ++ what ++ "\n\nCaused by:\n    " ++ reason ++ "\n"

/-- Runs a script that has been looked up, under the path that was given for
it. -/
def runScript (path : String) (contents : Except ReadError ByteArray) :
    Except ReportError Outcome :=
  let text : Except ReadError String := do
    match String.fromUTF8? (← contents) with
    | some text => .ok text
    | none => .error .notText
  match text with
  | .error e =>
    .ok ⟨failure, "", [], some (complaint ("script `" ++ path ++ "`") e.reason)⟩
  | .ok source => do
    let (shown, diagnostics) ← run path source .empty
    return ⟨if diagnostics.hadError then dataError else 0, shown.output,
      shown.reports, none⟩

/-- The lines of an input, when the bytes `line`, the last one first, stand
before it on its first line. A line feed ends a line, and one carriage return
before it belongs to it. What stands behind the last line feed is a line of
its own unless it is empty, and keeps a carriage return at its end. All other
bytes stand for themselves, that of a backspace (U+0008) too. -/
def linesAfter (line : List UInt8) : List UInt8 → List (List UInt8)
  | [] => if line = [] then [] else [line.reverse]
  | byte :: bytes =>
    if byte = 10 then
      let line := match line with
        | 13 :: line => line
        | line => line
      line.reverse :: linesAfter [] bytes
    else linesAfter (byte :: line) bytes

/-- The lines of an input. -/
def inputLines (input : ByteArray) : List ByteArray :=
  (linesAfter [] input.data.toList).map (fun line => ⟨line.toArray⟩)

/-- Runs lines, with what the lines before them have shown and the collection
that they left. The collection is cleared after each line. A line that is not
UTF-8 ends it. -/
def runLinesAfter (output : String) (reports : Array Report)
    (diagnostics : Diagnostics) :
    List ByteArray → Except ReportError Outcome
  | [] => .ok ⟨0, output, reports.toList, none⟩
  | line :: lines =>
    match String.fromUTF8? line with
    | none =>
      let reason := ReadError.notText.reason
      .ok ⟨failure, output, reports.toList, some (complaint reason reason)⟩
    | some source => do
      let (shown, diagnostics) ← run inputName source diagnostics
      runLinesAfter (output ++ shown.output) (reports ++ shown.reports)
        diagnostics.clear lines

/-- Runs the lines of an input. -/
def runInput (input : ByteArray) : Except ReportError Outcome :=
  runLinesAfter "" #[] .empty (inputLines input)

/-- Executes the command, given how to look up a script and what the standard
input holds. -/
def execute (args : List String)
    (lookUp : String → Except ReadError ByteArray) (input : ByteArray) :
    Except ReportError Outcome :=
  match Invocation.ofArguments args with
  | .error e => .ok ⟨usage, "", [], some e.written⟩
  | .ok .help => .ok ⟨0, Invocation.helpText, [], none⟩
  | .ok (.script path) => runScript path (lookUp path)
  | .ok .lines => runInput input

end Command

end LoxLexer
