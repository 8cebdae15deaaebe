import StackCode.Function.Basic
import StackCode.Machine.Walk

/-!
# Listings

## Design Notes

A listing shows code from anywhere. Operands that are missing read as 0, constants that are missing
are shown as `???`, and a byte that begins no instruction ends the listing of its function.
-/

namespace StackCode

def preview (constants : Array Value) (index : Nat) : String :=
  match constants[index]? with
  | some value => value.text
  | none => "???"

def Place.text : Place → String
  | .local slot => "local " ++ toString slot
  | .upvalue index => "upvalue " ++ toString index

namespace Found

def nameColumn (i : Found) : String := padRight 16 i.opcode.mnemonic

def operandColumn (n : Int) : String := " " ++ padLeft 5 ' ' (toString n)

def firstByte (i : Found) : Nat := (byteAt i.code 1).toNat

def firstWord (i : Found) : Nat := (wordAt i.code 1).toNat

def withConstant (i : Found) (constants : Array Value) (index : Nat) : String :=
  i.nameColumn ++ operandColumn index ++ " (" ++ preview constants index ++ ")"

/-- Where a jump goes on. -/
def target (i : Found) : Nat :=
  if i.opcode = .loop then i.offset + 3 - i.firstWord else i.offset + 3 + i.firstWord

def dedicatedConstant (i : Found) (constants : Array Value) (index : Nat) : String :=
  i.nameColumn ++ " (" ++ preview constants index ++ ")"

/-- The captured variables behind a closure's function. -/
def capturesText (i : Found) : String :=
  match readCaptures (i.code.drop 3) with
  | [] => ""
  | captures => " [" ++ ", ".intercalate (captures.map Place.text) ++ "]"

def text (constants : Array Value) (i : Found) : String :=
  match i.opcode with
  | .loadValue0 => i.dedicatedConstant constants 0
  | .loadValue1 => i.dedicatedConstant constants 1
  | .loadValue2 => i.dedicatedConstant constants 2
  | .loadValue3 => i.dedicatedConstant constants 3
  | .loadValue8 | .getConst8 | .getIvarName8 | .setIvarName8 =>
    i.withConstant constants i.firstByte
  | .loadValue16 | .getConst16 | .getIvarName16 | .setIvarName16 =>
    i.withConstant constants i.firstWord
  | .callMethod8 | .callSelf8 =>
    i.withConstant constants i.firstByte ++ " argc=" ++ toString (byteAt i.code 2).toNat
  | .callMethod16 | .callSelf16 =>
    i.withConstant constants i.firstWord ++ " argc=" ++ toString (byteAt i.code 3).toNat
  | .loadInt8 => i.nameColumn ++ operandColumn (byteAt i.code 1).toInt8.toInt
  | .defNamespace =>
    let kind := ((NamespaceKind.ofTag? (byteAt i.code 1)).map NamespaceKind.name).getD "?"
    i.nameColumn ++ operandColumn i.firstByte ++ " (" ++ kind ++ ")"
  | .slice => i.nameColumn ++ operandColumn i.firstByte ++ operandColumn (byteAt i.code 2).toNat
  | .closure => i.withConstant constants i.firstWord ++ i.capturesText
  | op =>
    if op.isJump then
      i.nameColumn ++ operandColumn i.firstWord ++ " (-> " ++
        padLeft 4 '0' (toString i.target) ++ ")"
    else if op.operandSize = 0 then op.mnemonic
    else if op.operandSize = 1 then i.nameColumn ++ operandColumn i.firstByte
    else i.nameColumn ++ operandColumn i.firstWord

end Found

namespace CompiledFunction

/-- The columns before an instruction: its offset and its line. A line that is the same as that of
the instruction before is not repeated. -/
def leftColumns (lines : LineTable) (index offset : Nat) : String :=
  let line := lines.lineAt? index
  let previous := if index = 0 then none else lines.lineAt? (index - 1)
  let lineText :=
    match line with
    | none => "   ?"
    | some n => if line = previous then "   |" else padLeft 4 ' ' (toString n)
  padLeft 4 '0' (toString offset) ++ " " ++ lineText ++ " "

def heading (f : CompiledFunction) : String :=
  "== " ++ f.name ++ " at " ++ f.location.text ++ " (required=" ++ toString f.required ++
    ", optional=" ++ toString f.optional ++ ", upvalues=" ++ toString f.upvalues ++ ") ==\n"

def constantsText (f : CompiledFunction) : String :=
  if f.constants.isEmpty then ""
  else
    "-- constants --\n" ++
      String.join (f.constants.zipIdx.map fun (value, index) =>
        padLeft 4 ' ' (toString index) ++ ": " ++ value.text ++ "\n") ++
      "-- code --\n"

def codeText (f : CompiledFunction) : String :=
  let constants := f.constants.toArray
  let found := walkCode f.code.toList
  let instructions := found.instructions.toList.zipIdx.map fun (i, index) =>
    leftColumns f.lines index i.offset ++ i.text constants ++ "\n"
  let stop :=
    match found.stopped with
    | none => ""
    | some (offset, byte) =>
      leftColumns f.lines found.instructions.size offset ++ "<invalid byte 0x" ++
        padLeft 2 '0' (hexDigits byte.toNat).toUpper ++ ">\n"
  String.join instructions ++ stop

def ownListing (f : CompiledFunction) : String := f.heading ++ f.constantsText ++ f.codeText

/-- A function and all that are nested in it, with a blank line before each but the first. -/
def listing (f : CompiledFunction) : String := "\n".intercalate (f.walk.map ownListing)

end CompiledFunction

end StackCode
