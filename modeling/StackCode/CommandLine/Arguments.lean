/-!
# Command-line arguments

## Design Notes

The first argument that is wrong, or that asks for help or for the version, decides. Options may
stand before or behind files, and none may be repeated. Behind `--` everything is a file.
-/

namespace StackCode

/-- How functions are printed. -/
inductive Format where
  | listing
  | json
deriving DecidableEq, Repr

def Format.ofName? (name : String) : Option Format :=
  match name with
  | "disasm" => some .listing
  | "json" => some .json
  | _ => none

/-- What is to be compiled, and how it is printed. -/
structure Invocation where
  files : List String
  format : Format
  noWarnings : Bool
  noColor : Bool
deriving DecidableEq, Repr

/-- What the arguments ask for. -/
inductive Request where
  | compile (invocation : Invocation)
  | help
  | version
  /-- The arguments make no sense. -/
  | misuse
deriving DecidableEq, Repr

structure ArgumentsRead where
  /-- The files, last one first. -/
  files : List String
  format : Option Format
  noWarnings : Bool
  noColor : Bool

namespace ArgumentsRead

def nothing : ArgumentsRead := ⟨[], none, false, false⟩

/-- What the arguments ask for when all are read. There has to be a file. -/
def finish (a : ArgumentsRead) : Request :=
  if a.files.isEmpty then .misuse
  else .compile {
    files := a.files.reverse
    format := a.format.getD .listing
    noWarnings := a.noWarnings
    noColor := a.noColor }

def file? (a : ArgumentsRead) (name : String) : Option ArgumentsRead :=
  if name.isEmpty then none else some { a with files := name :: a.files }

def format? (a : ArgumentsRead) (name : String) : Option ArgumentsRead :=
  if a.format.isSome then none
  else (Format.ofName? name).map fun format => { a with format := some format }

def switch? (a : ArgumentsRead) (name : String) : Option ArgumentsRead :=
  match name with
  | "--no-warnings" => if a.noWarnings then none else some { a with noWarnings := true }
  | "--no-color" => if a.noColor then none else some { a with noColor := true }
  | _ => none

/-- Read the files behind `--`. -/
def onlyFiles (a : ArgumentsRead) : List String → Request
  | [] => a.finish
  | name :: rest =>
    match a.file? name with
    | some a => onlyFiles a rest
    | none => .misuse

/-- The format in an argument that has it behind an equals sign. -/
def attachedFormat? (argument : String) : Option String :=
  match argument.toList with
  | '-' :: '-' :: 'f' :: 'o' :: 'r' :: 'm' :: 'a' :: 't' :: '=' :: name => some (String.ofList name)
  | _ => none

/-- Whether an argument is a file and no option. A lone hyphen is a file. -/
def isFile (argument : String) : Bool :=
  match argument.toList with
  | '-' :: _ :: _ => false
  | _ => true

/-- What an argument with short options asks for first. -/
def shortRequest (argument : String) : Request :=
  match argument.toList with
  | '-' :: 'h' :: _ => .help
  | '-' :: 'V' :: _ => .version
  | _ => .misuse

/-- Read the arguments from left to right. -/
def options (a : ArgumentsRead) : List String → Request
  | [] => a.finish
  | "--" :: rest => onlyFiles a rest
  | "--help" :: _ => .help
  | "--version" :: _ => .version
  | "--format" :: name :: rest =>
    match a.format? name with
    | some a => options a rest
    | none => .misuse
  | argument :: rest =>
    let read :=
      if isFile argument then a.file? argument
      else
        match attachedFormat? argument with
        | some name => a.format? name
        | none => a.switch? argument
    match read with
    | some a => options a rest
    | none => shortRequest argument

end ArgumentsRead

def Request.ofArguments (arguments : List String) : Request :=
  ArgumentsRead.nothing.options arguments

end StackCode
