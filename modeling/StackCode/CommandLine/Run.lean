import StackCode.CommandLine.Arguments
import StackCode.CommandLine.Directory
import StackCode.Compile.Unit
import StackCode.Function.Json
import StackCode.Function.Listing
import StackCode.Json.Writer

/-!
# Compiling files

## Design Notes

Files are compiled in the order given, each against what those before it declared. One that cannot
be compiled does not keep the others from it.
-/

namespace StackCode

inductive FileError where
  | io (problem : FileProblem)
  /-- The text spells no syntax tree. -/
  | json
deriving DecidableEq, Repr

def FileError.message : FileError → String
  | .io problem => "I/O error: " ++ problem.message
  | .json => "invalid syntax tree: the text does not spell one"

def compileFile (options : Options) (registry : Registry) (contents : Except FileProblem String) :
    Except FileError (Outcome × Registry) :=
  match contents with
  | .error problem => .error (.io problem)
  | .ok text =>
    match Program.read? text with
    | none => .error .json
    | some program => .ok (compile options registry program)

/-! ### Output -/

/-- How a piece of a message is set off. -/
inductive Style where
  /-- Bold and red. -/
  | failure
  /-- Bold and yellow. -/
  | warning
  | dimmed
deriving DecidableEq, Repr

def Style.start : Style → String
  | .failure => "\x1b[1;31m"
  | .warning => "\x1b[1;33m"
  | .dimmed => "\x1b[2m"

def styleEnd : String := "\x1b[0m"

/-- A text with a style started again behind every end of a style in it. -/
def Style.restart (style : Style) : List Char → String
  | [] => ""
  | '\x1b' :: '[' :: '0' :: 'm' :: rest => styleEnd ++ style.start ++ style.restart rest
  | c :: rest => String.singleton c ++ style.restart rest

/-- A text in a style, on terminals that have colours. -/
def Style.paint (style : Style) (color : Bool) (text : String) : String :=
  if color then style.start ++ style.restart text.toList ++ styleEnd else text

def Diagnostic.render (color : Bool) (d : Diagnostic) : String :=
  let style : Style := if d.problem.isFailure then .failure else .warning
  Style.dimmed.paint color d.location.text ++ ": " ++
    style.paint color d.problem.severity ++ ": " ++
    d.problem.message ++ "\n"

def errorLine (color : Bool) (file message : String) : String :=
  Style.failure.paint color "error:" ++ " " ++ file ++ ": " ++ message ++ "\n"

def Format.print (format : Format) (function : CompiledFunction) : String :=
  match format with
  | .listing => function.listing ++ "\n"
  | .json => function.toJson.indented ++ "\n"

structure CommandResult where
  exitCode : UInt8
  stdout : String
  stderr : String
deriving DecidableEq, Repr

structure CommandState where
  registry : Registry
  failed : Bool
  stdout : String
  stderr : String

def Invocation.options (i : Invocation) (file : String) : Options :=
  { Options.forFile file with
    warnUnusedValues := !i.noWarnings
    warnUnreachableCode := !i.noWarnings }

def Invocation.compileNext (i : Invocation) (color : Bool) (s : CommandState)
    (file : String × Except FileProblem String) : CommandState :=
  let (name, contents) := file
  match compileFile (i.options name) s.registry contents with
  | .error e => { s with failed := true, stderr := s.stderr ++ errorLine color name e.message }
  | .ok (outcome, registry) =>
    let stderr := s.stderr ++ String.join (outcome.diagnostics.map (Diagnostic.render color))
    match outcome.function with
    | none =>
      { s with
        registry := registry
        failed := true
        stderr := stderr ++ errorLine color name outcome.failureText }
    | some function =>
      { s with
        registry := registry
        stdout := s.stdout ++ i.format.print function
        stderr := stderr }

/-- Compile the files of an invocation, with what they hold. `color` says whether the terminal has
colours. -/
def Invocation.run (i : Invocation) (color : Bool)
    (files : List (String × Except FileProblem String)) : CommandResult :=
  let color := color && !i.noColor
  let s := files.foldl (i.compileNext color) ⟨.prelude, false, "", ""⟩
  ⟨if s.failed then 1 else 0, s.stdout, s.stderr⟩

def versionText : String := "basaltc 0.1.0\n"

def usageText : String := "Usage: basaltc [OPTIONS] <FILES>...\n"

def helpText : String :=
  "Basalt bytecode compiler\n\n" ++ usageText ++
  "\nArguments:\n  <FILES>...  Syntax tree files (JSON), compiled in order\n\n" ++
  "Options:\n" ++
  "      --format <FORMAT>  How to print compiled functions " ++
  "[default: disasm] [possible values: disasm, json]\n" ++
  "      --no-warnings      Do not report warnings\n" ++
  "      --no-color         Disable colored diagnostics\n" ++
  "  -h, --help             Print help\n" ++
  "  -V, --version          Print version\n"

def Request.answer? : Request → Option CommandResult
  | .compile _ => none
  | .help => some ⟨0, helpText, ""⟩
  | .version => some ⟨0, versionText, ""⟩
  | .misuse =>
    some ⟨2, "", "error: unusable arguments\n\n" ++ usageText ++
      "\nFor more information, try '--help'.\n"⟩

/-- What the command does with its arguments, given what each file holds. -/
def runCommand (read : String → Except FileProblem String) (color : Bool)
    (arguments : List String) : CommandResult :=
  match Request.ofArguments arguments with
  | .compile invocation => invocation.run color (invocation.files.map fun file => (file, read file))
  | request => request.answer?.getD ⟨2, "", ""⟩

end StackCode
