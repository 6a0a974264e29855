import LoxLexer.ControlSequence

/-!
# The command line

The command takes at most one argument, the path of a script. Without one it
reads lines from its standard input. The only option asks for help.

Arguments are read from left to right, and the first that decides the matter
does so: help is given as soon as it is asked for, and an argument that has
no place is refused there and then. An argument that begins with a dash is an
option unless it is a dash alone; after two dashes every argument is a path.
An empty path is refused too, but only where the reading ends, so that a
later mistake is reported in its stead.
-/

namespace LoxLexer

/-- The first line of a text. A line feed ends it, together with a carriage
return right before that. -/
def firstLine (text : List Char) : List Char :=
  let line := text.takeWhile (· ≠ '\n')
  if line.length < text.length ∧ line.getLast? = some '\r' then line.dropLast
  else line

/-- What the command is asked to do. -/
inductive Invocation where
  /-- To explain its use. -/
  | help
  /-- To run the script at a path. -/
  | script (path : String)
  /-- To run each line of its standard input. -/
  | lines
deriving DecidableEq, Repr

/-- Why the arguments make no sense. -/
inductive UsageError where
  /-- There is no such option, or no place for another path. -/
  | unexpectedArgument (shown : String)
  /-- The path is empty. -/
  | emptyPath
  /-- Something is given to the request for help. -/
  | valueForHelp (value : String)
deriving DecidableEq, Repr

namespace UsageError

/-- All that is said about a mistake. Arguments are quoted without what would
control a terminal. -/
def explanation (i : Interruption) : UsageError → List Char
  | unexpectedArgument shown =>
    "error: unexpected argument '".toList ++ visible i shown.toList ++
      "' found".toList
  | emptyPath =>
    "error: a value is required for '[SCRIPT]' but none was supplied".toList
  | valueForHelp value =>
    "error: unexpected value '".toList ++ visible i value.toList ++
      "' for '--help' found; no more were expected".toList

/-- The line that names a mistake. An argument may itself hold line feeds, and
only the first line counts. A sequence that is interrupted in an argument is
over. -/
def message (e : UsageError) : String :=
  String.ofList (firstLine (e.explanation .ends))

/-- The line that is written to the error stream. It is the message, but a
sequence that is interrupted in an argument goes on. -/
def written (e : UsageError) : String :=
  String.ofList (firstLine (e.explanation .pauses))

end UsageError

namespace Invocation

/-- The explanation of the command's use. -/
def helpText : String :=
  "Print the tokens of a Lox script, or of each line typed at the prompt\n\n" ++
  "Usage: lox [SCRIPT]\n\n" ++
  "Arguments:\n  [SCRIPT]  Scan a script\n\n" ++
  "Options:\n  -h, --help  Print help\n"

/-- What to do with the path that was given, if one was. -/
def ofPath? : Option String → Except UsageError Invocation
  | none => .ok lines
  | some "" => .error .emptyPath
  | some path => .ok (script path)

/-- Gives help, unless the path so far is empty. -/
def helpAfter (path? : Option String) : Except UsageError Invocation :=
  if path? = some "" then .error .emptyPath else .ok help

/-- The path after one more argument that is a path. There is place for one
only. -/
def addPath (path? : Option String) (arg : String) :
    Except UsageError String :=
  match path? with
  | none => .ok arg
  | some _ => .error (.unexpectedArgument arg)

/-- Reads arguments of which all are paths. -/
def ofPaths (path? : Option String) :
    List String → Except UsageError Invocation
  | [] => ofPath? path?
  | arg :: args => do
    let path ← addPath path? arg
    ofPaths (some path) args

/-- Decides on an option that begins with two dashes, given what follows them.
Behind an equals sign stands a value for it. -/
def ofLongOption (path? : Option String) (option : List Char) :
    Except UsageError Invocation :=
  let name := option.takeWhile (· ≠ '=')
  if name = ['h', 'e', 'l', 'p'] then
    match option.dropWhile (· ≠ '=') with
    | [] => helpAfter path?
    | _ :: value => .error (.valueForHelp (String.ofList value))
  else .error (.unexpectedArgument (String.ofList ('-' :: '-' :: name)))

/-- Decides on an option that begins with one dash. Of the letters behind it
the first is an option of its own. -/
def ofShortOption (path? : Option String) (letter : Char) :
    Except UsageError Invocation :=
  if letter = 'h' then helpAfter path?
  else .error (.unexpectedArgument (String.ofList ['-', letter]))

/-- Reads arguments when the path so far is `path?`. -/
def read (path? : Option String) : List String → Except UsageError Invocation
  | [] => ofPath? path?
  | arg :: args =>
    match arg.toList with
    | ['-', '-'] => ofPaths path? args
    | '-' :: '-' :: option => ofLongOption path? option
    | '-' :: letter :: _ => ofShortOption path? letter
    | _ => do
      let path ← addPath path? arg
      read (some path) args

/-- What the arguments of the command ask for. -/
def ofArguments (args : List String) : Except UsageError Invocation :=
  read none args

end Invocation

end LoxLexer
