import StackCode.Compile.State

/-!
# Pieces of code

## Design Notes

What a jump passes over is compiled before the jump is, so its distance is known when it is made.
-/

namespace StackCode

namespace Code

def one (span : Span) (instr : Instr) : Code := #[⟨span.line, instr⟩]

/-- One operation without operands. -/
def plain (span : Span) (op : PlainOp) : Code := one span (.plain op)

/-- A push of nil's entry in the pool, in place of a value that could not be compiled. -/
def placeholder (span : Span) : Code := one span (.indexed .loadValue 0)

end Code

/-- What it means that an index of a family has more than 16 bits. -/
def Family.failure : Family → Failure
  | .getLocal => .tooManyLocals
  | .setLocal => .tooManyLocals
  | .closeUpvalue => .tooManyLocals
  | .prepLocals => .tooManyLocals
  | .getUpvalue => .tooManyUpvalues
  | .setUpvalue => .tooManyUpvalues
  | .newList => .tooManyElements
  | .newTuple => .tooManyElements
  | .newMap => .tooManyElements
  | _ => .tooManyConstants

namespace Compile

/-! ### Values -/

/-- An operation with an index. One that has more than 16 bits is reported. -/
def indexed (family : Family) (index : Nat) (span : Span) : Compile Code := do
  if index < 65536 then
    return .one span (.indexed family (UInt16.ofNat index))
  else
    fail family.failure span
    return #[]

/-- Push a constant of the pool. -/
def loadValue (value : Value) (span : Span) : Compile Code := do
  return .one span (.indexed .loadValue (← addConstant value span))

def loadSymbol (name : String) (span : Span) : Compile Code := loadValue (.symbol name) span

def getConst (fullName : String) (span : Span) : Compile Code := do
  return .one span (.indexed .getConst (← addConstant (.symbol fullName) span))

/-- Push an integer. One of 8 bits is part of the code. -/
def loadInt (value : Int) (span : Span) : Compile Code :=
  if -128 ≤ value ∧ value ≤ 127 then return .one span (.int (Int8.ofInt value))
  else loadValue (.int (Int64.ofInt value)) span

def loadLiteral (value : Literal) (span : Span) : Compile Code :=
  match value with
  | .nil => return .plain span .pushNil
  | .bool true => return .plain span .pushTrue
  | .bool false => return .plain span .pushFalse
  | .int n => loadInt n.toInt span
  | .float x => loadValue (.float x) span
  | .string s => loadValue (.string s) span
  | .symbol s => loadSymbol s span

/-- The number of arguments in a call. More than 255 are reported. -/
def argumentCount (count : Nat) (span : Span) : Compile UInt8 := do
  if count < 256 then
    return UInt8.ofNat count
  else
    fail .tooManyArguments span
    return 255

def send (kind : CallKind) (name : String) (count : Nat) (span : Span) : Compile Code := do
  let name ← addConstant (.symbol name) span
  return .one span (.send kind name (← argumentCount count span))

/-! ### Scopes -/

def closeSlots (span : Span) (slots : List Nat) : Compile Code :=
  slots.foldlM (fun code slot => return code ++ (← indexed .closeUpvalue slot span)) #[]

/-- Compile something in a scope of its own: what was made in it, and the code that ends the scope.
What it imports is gone afterwards. -/
def withScope {α : Type} (span : Span) (body : Compile α) : Compile (α × Code) := do
  let imports := (← get).imports
  modifyScopes ScopeStack.enter
  modify fun s => { s with imports := s.imports.push }
  let made ← body
  let (released, scopes) := (← get).current.scopes.exit
  modifyScopes fun _ => scopes
  let ending ← closeSlots span released.captured
  modify fun s => { s with imports := imports }
  return (made, ending)

def inScope (span : Span) (body : Compile Code) : Compile Code := do
  let (code, ending) ← withScope span body
  return code ++ ending

/-! ### Control flow -/

/-- A jump over some bytes. More than 65535 are reported, at a place of their own. -/
def jump (kind : JumpKind) (distance : Nat) (span failureSpan : Span) : Compile Code := do
  if distance < 65536 then
    return .one span (.jump kind (UInt16.ofNat distance))
  else
    fail .jumpTooLarge failureSpan
    return .one span (.jump kind 0)

/-- The left value if it decides, else the right one. -/
def shortCircuit (kind : JumpKind) (span : Span) (left right : Compile Code) : Compile Code := do
  let left ← left
  let right ← right
  let skip ← jump kind (right.byteSize + 1) span span
  return left ++ skip ++ Code.plain span .pop ++ right

def conditional (span : Span) (condition thenBranch elseBranch : Compile Code) : Compile Code := do
  let condition ← condition
  let thenBranch ← thenBranch
  let otherwise ← jump .whenFalse (thenBranch.byteSize + 3) span span
  let elseBranch ← elseBranch
  let done ← jump .always elseBranch.byteSize span span
  return condition ++ otherwise ++ thenBranch ++ done ++ elseBranch

def loop (span : Span) (condition body : Compile Code) : Compile Code := do
  let condition ← condition
  let body ← body
  let back ← jump .back (condition.byteSize + body.byteSize + 6) span span
  let leave ← jump .whenFalse (body.byteSize + 3) span span
  return condition ++ leave ++ body ++ back

/-- One arm of a switch, without the jump that leaves it. -/
structure Arm where
  code : Code
  span : Span

/-- An arm that is taken if its test holds. -/
def arm (span : Span) (test body : Compile Code) : Compile Arm := do
  let ((test, body), ending) ← withScope span do
    let test ← test
    let body ← body
    return (test, body)
  let next ← jump .whenFalse (body.byteSize + ending.byteSize + 3) span span
  return ⟨test ++ next ++ body ++ ending, span⟩

/-- Put arms one behind the other, each with a jump to the end. `size` is the number of bytes from
here to the end. -/
def joinArms (span : Span) (elseBranch : Code) : Nat → Code → List Arm → Compile Code
  | _, code, [] => return code ++ elseBranch
  | size, code, arm :: rest => do
    let size := size - (arm.code.byteSize + 3)
    let leave ← jump .always size arm.span span
    joinArms span elseBranch size (code ++ arm.code ++ leave) rest

/-- The first arm whose test holds, or else the last branch. -/
def switch (span : Span) (arms : List Arm) (elseBranch : Code) : Compile Code :=
  let size := arms.foldr (fun arm n => arm.code.byteSize + 3 + n) elseBranch.byteSize
  joinArms span elseBranch size #[] arms

end Compile

/-- The function that a piece of code and a frame make. Room for variables is made before the code,
beyond that of the parameters. -/
def Frame.finish (frame : Frame) (name file : String) (span : Span) (required optional : Nat)
    (code : Code) : CompiledFunction :=
  let room := frame.scopes.localCount - (required + optional)
  let code :=
    if room = 0 then code else Code.one span (.indexed .prepLocals (UInt16.ofNat room)) ++ code
  { name := name
    code := code.bytes
    location := ⟨file, span⟩
    lines := .ofCode code
    constants := frame.pool.values.toList
    required := required
    optional := optional
    upvalues := frame.captures.size }

end StackCode
