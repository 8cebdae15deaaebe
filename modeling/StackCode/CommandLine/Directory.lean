import Std.Data.ExtTreeMap

/-!
# Directories and paths

What a path leads to in a directory that holds files and no other directories.

## Design Notes

A path is walked one component after the other. An empty component and a single dot stay in place,
so a slash behind a file is an attempt to enter it. A path that starts with a slash, or goes up,
leaves the directory; nothing is known about what lies outside, and no file is found there.
-/

namespace StackCode

inductive FileProblem where
  | missing
  | isDirectory
  | notADirectory
  | nameTooLong
  /-- The path has a character that no path can have. -/
  | nullInPath
  | notText
  | other (message : String)
deriving DecidableEq, Repr

def FileProblem.message : FileProblem → String
  | .missing => "No such file or directory (os error 2)"
  | .isDirectory => "Is a directory (os error 21)"
  | .notADirectory => "Not a directory (os error 20)"
  | .nameTooLong => "File name too long (os error 36)"
  | .nullInPath => "file name contained an unexpected NUL byte"
  | .notText => "stream did not contain valid UTF-8"
  | .other message => message

/-- Files by their names, each with what it holds. -/
abbrev Directory := Std.ExtTreeMap String String compare

/-- The greatest number of bytes in a path. -/
def maxPathBytes : Nat := 4095

/-- The greatest number of bytes in a component of a path. -/
def maxNameBytes : Nat := 255

inductive PathTarget where
  /-- In the directory itself. -/
  | inside
  /-- In some directory around it. -/
  | outside
  /-- At a file, with what it holds. -/
  | file (text : String)
deriving DecidableEq, Repr

/-- The components of a path, which slashes divide. There is one more than there are slashes. -/
def pathComponents : List Char → List String
  | [] => [""]
  | '/' :: rest => "" :: pathComponents rest
  | c :: rest =>
    match pathComponents rest with
    | [] => [String.singleton c]
    | name :: names => (String.singleton c ++ name) :: names

namespace Directory

/-- The directory with the given files. Of two with one name, the second is kept. -/
def ofList (files : List (String × String)) : Directory :=
  files.foldl (fun d (name, text) => d.insert name text) ∅

/-- Follow one component of a path. -/
def enter (d : Directory) (target : PathTarget) (name : String) : Except FileProblem PathTarget :=
  match target with
  | .file _ => .error .notADirectory
  | target =>
    if name = "" ∨ name = "." then .ok target
    else if name = ".." then .ok .outside
    else if maxNameBytes < name.utf8ByteSize then .error .nameTooLong
    else
      match target, d[name]? with
      | .inside, some text => .ok (.file text)
      | _, _ => .error .missing

def walk (d : Directory) (path : String) : Except FileProblem PathTarget :=
  let start : PathTarget := if path.toList.head? = some '/' then .outside else .inside
  (pathComponents path.toList).foldlM d.enter start

/-- What the file that a path leads to holds. -/
def read (d : Directory) (path : String) : Except FileProblem String :=
  if path.isEmpty then .error .missing
  else if path.toList.contains '\x00' then .error .nullInPath
  else if maxPathBytes < path.utf8ByteSize then .error .nameTooLong
  else
    match d.walk path with
    | .ok (.file text) => .ok text
    | .ok _ => .error .isDirectory
    | .error problem => .error problem

end Directory

end StackCode
