/-!
# Files by path

A path is followed name by name from the working directory. All that is known to exist are given
files, the directories that hold them, and the directories above.

1. `Files.follow_still`: behind a directory, an empty name and the name `.` lead nowhere else.
-/

namespace LoxLang

/-- Why a path leads to no contents. -/
inductive Absence where
  | missing
  /-- The path goes on behind a file. -/
  | notDirectory
  /-- The path ends at a directory. -/
  | directory
  | nameTooLong
  deriving DecidableEq, Repr

/-- What the files hold, by path. -/
abbrev Files : Type :=
  String → Except Absence (List UInt8)

namespace Files

/-- The names that lead from the working directory to a file. -/
def names (path : String) : List String :=
  (path.splitOn "/").filter fun name => name ≠ "" ∧ name ≠ "."

/-- What is found on a way. -/
inductive Entry where
  | file (contents : List UInt8)
  | directory
  | nothing
  deriving DecidableEq, Repr

/-- Whether a way leads upwards only; the way to the working directory itself does. -/
def upwards (way : List String) : Bool :=
  way.all fun name => name = ".."

/-- What is found on a way from the working directory. Of two files on one way the later counts. -/
def entry (given : List (String × List UInt8)) (way : List String) : Entry :=
  match given.reverse.find? fun file => names file.1 = way with
  | some (_, contents) => .file contents
  | none =>
    if upwards way || given.any fun file => way.isPrefixOf (names file.1) then .directory
    else .nothing

/-- The bytes of the longest name. -/
def nameLimit : Nat := 255

/-- The bytes of the longest path. -/
def pathLimit : Nat := 4095

/-- Follows names behind a way. A name can follow a directory only, be it empty. -/
def follow (given : List (String × List UInt8)) :
    List String → List String → Except Absence (List UInt8)
  | way, [] =>
    match entry given way with
    | .file contents => .ok contents
    | .directory => .error .directory
    | .nothing => .error .missing
  | way, name :: rest =>
    match entry given way with
    | .file _ => .error .notDirectory
    | .nothing => .error .missing
    | .directory =>
      if name = "" ∨ name = "." then follow given way rest
      else if name = ".." then
        follow given (if upwards way then way ++ [name] else way.dropLast) rest
      else if nameLimit < name.utf8ByteSize then .error .nameTooLong
      else follow given (way ++ [name]) rest

/-- Files given by path and contents. A path that begins at the root does so above the working
directory. -/
def ofList (given : List (String × List UInt8)) : Files := fun path =>
  if pathLimit < path.utf8ByteSize then .error .nameTooLong
  else follow given (if path.startsWith "/" then [".."] else []) (path.splitOn "/")

theorem follow_still (given : List (String × List UInt8)) (way rest : List String) (name : String)
    (still : name = "" ∨ name = ".") (here : entry given way = .directory) :
    follow given way (name :: rest) = follow given way rest := by
  simp [follow, here, still]

end Files

end LoxLang
