/-!
# Looking up a script

The command finds its script by a path, relative to the folder in which it is
run. `Folder` is what such a folder holds: files under names, where a name may
lead through folders below. `Folder.read` follows a path through it as a file
system would, and so decides which of several things goes wrong when it leads
to no file.

What lies outside the folder is not known. A path that leads out of it finds a
folder where it ends on the way, and else nothing.
-/

namespace LoxLexer

/-- Why a script cannot be read. -/
inductive ReadError where
  /-- The path leads to nothing. -/
  | missing
  /-- The path leads to a folder. -/
  | isFolder
  /-- The path leads through a file. -/
  | throughFile
  /-- The path is too long, or a name on it where it is looked up. -/
  | tooLong
  /-- The file is not text in UTF-8. -/
  | notText
  /-- The system refuses, for a reason and under a number of its own. -/
  | refused (reason : String) (code : Nat)
deriving DecidableEq, Repr

/-- The reason that is given for a script that cannot be read. -/
def ReadError.reason : ReadError → String
  | missing => "No such file or directory (os error 2)"
  | isFolder => "Is a directory (os error 21)"
  | throughFile => "Not a directory (os error 20)"
  | tooLong => "File name too long (os error 36)"
  | notText => "stream did not contain valid UTF-8"
  | refused reason code => reason ++ " (os error " ++ toString code ++ ")"

/-- The files below a folder, by their names. A name may lead through folders
below, set off by strokes. -/
structure Folder where
  /-- Names and contents. -/
  files : List (String × ByteArray)

namespace Folder

/-- The greatest length of a name in a folder, in bytes. -/
def maxName : Nat :=
  255

/-- The greatest length of a path, in bytes. -/
def maxPath : Nat :=
  4095

/-- Whether a part of a path stays where it is. -/
def stays (part : String) : Bool :=
  part = "" || part = "."

/-- The parts of a path between strokes. -/
def partsOf (path : String) : List String :=
  (path.toList.splitOn '/').map String.ofList

/-- The parts of a name, without those that lead nowhere. -/
def steps (name : String) : List String :=
  (partsOf name).filter (fun part => !stays part)

/-- What stands at a place below a folder. -/
inductive Entry where
  /-- Nothing at all. -/
  | nothing
  /-- A folder. -/
  | folder
  /-- A file. -/
  | file (contents : ByteArray)

/-- What stands at the place that is reached by the given steps. A folder
stands wherever a longer name leads through. -/
def entry (folder : Folder) (place : List String) : Entry :=
  match folder.files.find? (fun f => steps f.1 = place) with
  | some f => .file f.2
  | none =>
    if folder.files.any (fun f => place.isPrefixOf (steps f.1)) then .folder
    else .nothing

/-- Where the parts of a path lead that starts outside. They stay in folders as
long as they only go back, and lead to nothing with the first name. -/
def followOutside : List String → ReadError
  | [] => .isFolder
  | part :: parts =>
    if stays part ∨ part = ".." then followOutside parts
    else if maxName < part.utf8ByteSize then .tooLong
    else .missing

/-- Follows the parts of a path from a place below the folder. Some stay where
they are, which has to be a folder; two dots go back by one. -/
def follow (folder : Folder) (place : List String) :
    List String → Except ReadError ByteArray
  | [] => .error .isFolder
  | part :: parts =>
    if stays part then folder.follow place parts
    else if part = ".." then
      if place = [] then .error (followOutside parts)
      else folder.follow place.dropLast parts
    else if maxName < part.utf8ByteSize then .error .tooLong
    else
      match folder.entry (place ++ [part]) with
      | .nothing => .error .missing
      | .folder => folder.follow (place ++ [part]) parts
      | .file contents =>
        if parts = [] then .ok contents else .error .throughFile

/-- Reads the file at a path. A path from the root leads out of the folder. -/
def read (folder : Folder) (path : String) : Except ReadError ByteArray :=
  if path = "" then .error .missing
  else if maxPath < path.utf8ByteSize then .error .tooLong
  else if path.toList.head? = some '/' then
    .error (followOutside (partsOf path))
  else folder.follow [] (partsOf path)

end Folder

end LoxLexer
