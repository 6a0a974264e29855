import LoxLexer.Command

/-!
# The executable

Carries out what `Command.execute` comes to: it reads the script or the
standard input, prints the output, and draws the reports. Nothing is decided
here.
-/

namespace LoxLexer

/-- The number of a system error. Some calls give it negated. -/
def errorNumber (code : UInt32) : Nat :=
  if code < 0x80000000 then code.toNat else (0 - code).toNat

/-- Reads the file at a path, and names the reason where the system refuses. -/
def readFile (path : String) : IO (Except ReadError ByteArray) := do
  try
    return .ok (← IO.FS.readBinFile path)
  catch
    | .noFileOrDirectory .. => return .error .missing
    | .inappropriateType _ code details =>
      match errorNumber code with
      | 21 => return .error .isFolder
      | 20 => return .error .throughFile
      | number => return .error (.refused details number)
    | .invalidArgument _ code details =>
      match errorNumber code with
      | 36 => return .error .tooLong
      | number => return .error (.refused details number)
    | .permissionDenied _ code _ =>
      return .error (.refused "Permission denied" (errorNumber code))
    | other => return .error (.refused (toString other) 0)

/-- Reads a stream to its end, behind the bytes read before. -/
partial def readAll (stream : IO.FS.Stream) (before : ByteArray) :
    IO ByteArray := do
  let chunk ← stream.read 65536
  if chunk.isEmpty then return before
  else readAll stream (before ++ chunk)

/-- Draws a report. -/
def Report.drawing (r : Report) : String :=
  let place := match r.label? with
    | some label => "  at " ++ label.location ++ "\n  note: " ++ label.note ++ "\n"
    | none => ""
  "Error: " ++ r.message ++ "\n" ++ place

end LoxLexer

open LoxLexer in
/-- Executes the command. -/
def main (args : List String) : IO UInt32 := do
  let contents ← match Invocation.ofArguments args with
    | .ok (.script path) => readFile path
    | _ => pure (.error .missing)
  let input ← match Invocation.ofArguments args with
    | .ok .lines => readAll (← IO.getStdin) ByteArray.empty
    | _ => pure ByteArray.empty
  match Command.execute args (fun _ => contents) input with
  | .error e =>
    IO.eprintln e.message
    return 101
  | .ok outcome =>
    for report in outcome.reports do
      IO.eprint report.drawing
    IO.print outcome.output
    if let some complaint := outcome.complaint? then
      IO.eprint (if complaint.endsWith "\n" then complaint else complaint ++ "\n")
    return outcome.exitCode.toUInt32
