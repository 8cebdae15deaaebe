import StackCode.CommandLine.Run

/-!
# The command

Reads the files, and prints what compiling them gives.
-/

namespace StackCode

/-- Whether a variable of the environment is switched on, if it is set. -/
def switchedOn (value : Option String) : Option Bool := value.map (· != "0")

/-- Whether messages are coloured. Colours can be forced, or be forbidden, or be left to the
terminal. -/
def colorsTerminal (forced forbidden wanted : Option String) (isTerminal : Bool) : Bool :=
  if switchedOn forced == some true then true
  else if forbidden.isSome then false
  else (switchedOn wanted).getD true && isTerminal

/-- Why a file could not be read. -/
def FileProblem.ofError (e : IO.Error) : FileProblem :=
  match e with
  | .noFileOrDirectory _ _ _ => .missing
  | .inappropriateType _ 20 _ => .notADirectory
  | .inappropriateType _ _ _ => .isDirectory
  | .invalidArgument _ 36 _ => .nameTooLong
  | e => .other (toString e)

def readContents (name : String) : IO (Except FileProblem String) := do
  match ← (IO.FS.readBinFile name).toBaseIO with
  | .error e => return .error (.ofError e)
  | .ok bytes =>
    match String.fromUTF8? bytes with
    | some text => return .ok text
    | none => return .error .notText

/-- Does what a request asks for. -/
def perform (request : Request) (color : Bool) : IO CommandResult := do
  match request with
  | .compile invocation =>
    let files ← invocation.files.mapM fun file => return (file, ← readContents file)
    return invocation.run color files
  | request => return request.answer?.getD ⟨2, "", ""⟩

end StackCode

def main (arguments : List String) : IO UInt32 := do
  let color := StackCode.colorsTerminal (← IO.getEnv "CLICOLOR_FORCE") (← IO.getEnv "NO_COLOR")
    (← IO.getEnv "CLICOLOR") (← (← IO.getStdout).isTty)
  let result ← StackCode.perform (.ofArguments arguments) color
  IO.print result.stdout
  IO.eprint result.stderr
  return result.exitCode.toUInt32
