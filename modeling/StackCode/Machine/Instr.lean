import StackCode.Machine.Capture
import StackCode.Syntax.Basic

/-!
# Instructions

## Design Notes

Jumps are relative and count bytes, so that a piece of code means the same wherever it is put. The
forms of an instruction that differ only in the width of an index are one `Instr`; its bytes are
always the shortest.
-/

namespace StackCode

/-- An operation without operands. -/
inductive PlainOp where
  | pop
  | pushNil
  | pushTrue
  | pushFalse
  | pushSelf
  | defConst
  | setSuperclass
  | includeMixin
  | getSingleton
  | defIvars
  | defMethod
  | defGetter
  | defSetter
  | defMethodAlias
  | initNamespace
  | exec
  | unary (operator : UnaryOp)
  | binary (operator : BinaryOp)
  | subscript
  | isA
  | length
  | hasKey
  | raise
  | ret
deriving DecidableEq, Repr

def UnaryOp.opcode : UnaryOp → Opcode
  | .negate => .negate
  | .not => .invert

def BinaryOp.opcode : BinaryOp → Opcode
  | .add => .add
  | .subtract => .subtract
  | .multiply => .multiply
  | .divide => .divide
  | .modulo => .modulo
  | .equal => .equal
  | .notEqual => .notEqual
  | .less => .less
  | .lessEqual => .lessEqual
  | .greater => .greater
  | .greaterEqual => .greaterEqual

def PlainOp.opcode : PlainOp → Opcode
  | .pop => .pop
  | .pushNil => .pushNil
  | .pushTrue => .pushTrue
  | .pushFalse => .pushFalse
  | .pushSelf => .pushSelf
  | .defConst => .defConst
  | .setSuperclass => .setSuperclass
  | .includeMixin => .includeMixin
  | .getSingleton => .getSingleton
  | .defIvars => .defIvars
  | .defMethod => .defMethod
  | .defGetter => .defGetter
  | .defSetter => .defSetter
  | .defMethodAlias => .defMethodAlias
  | .initNamespace => .initNamespace
  | .exec => .exec
  | .unary operator => operator.opcode
  | .binary operator => operator.opcode
  | .subscript => .subscript
  | .isA => .isA
  | .length => .length
  | .hasKey => .hasKey
  | .raise => .raise
  | .ret => .ret

inductive JumpKind where
  /-- Forward, always. -/
  | always
  /-- Back, always. -/
  | back
  /-- Forward if the popped value is falsy. -/
  | whenFalse
  /-- Forward if the popped value is truthy. -/
  | whenTrue
  /-- Forward if the value, which stays, is falsy. -/
  | whenFalseKeep
  /-- Forward if the value, which stays, is truthy. -/
  | whenTrueKeep
  /-- Forward unless the popped value marks a missing argument. -/
  | unlessMissing
deriving DecidableEq, Repr

def JumpKind.opcode : JumpKind → Opcode
  | .always => .jump
  | .back => .loop
  | .whenFalse => .jumpUnless
  | .whenTrue => .jumpIf
  | .whenFalseKeep => .jumpUnlessNp
  | .whenTrueKeep => .jumpIfNp
  | .unlessMissing => .jumpUnlessMissing

inductive Instr where
  | plain (op : PlainOp)
  | int (value : Int8)
  | indexed (family : Family) (index : UInt16)
  /-- A call by name: the index of the symbol, and how many arguments there are. -/
  | send (kind : CallKind) (name : UInt16) (argc : UInt8)
  | call (argc : UInt8)
  | instantiate (argc : UInt8)
  | defNamespace (kind : NamespaceKind)
  /-- Leaves elements out at the front and at the end. -/
  | slice (front back : UInt8)
  | jump (kind : JumpKind) (distance : UInt16)
  | closure (function : UInt16) (captures : List Place)
deriving DecidableEq, Repr

namespace Instr

/-- The bytes of an instruction: those of its operation and of its operands. -/
def bytes : Instr → List UInt8
  | .plain op => [op.opcode.byte]
  | .int value =>
    match Opcode.smallInt? value.toInt with
    | some op => [op.byte]
    | none => [Opcode.loadInt8.byte, value.toUInt8]
  | .indexed family index =>
    let form := family.forms.encoding index
    form.opcode.byte :: form.operand
  | .send kind name argc =>
    let form := kind.forms.encoding name
    form.opcode.byte :: form.operand ++ [argc]
  | .call argc => [Opcode.call.byte, argc]
  | .instantiate argc => [Opcode.instantiate8.byte, argc]
  | .defNamespace kind => [Opcode.defNamespace.byte, kind.tag]
  | .slice front back => [Opcode.slice.byte, front, back]
  | .jump kind distance => kind.opcode.byte :: wordBytes distance
  | .closure function captures =>
    Opcode.closure.byte :: wordBytes function ++ Place.encodeAll captures

def size (i : Instr) : Nat := i.bytes.length

@[simp] theorem size_jump (kind : JumpKind) (distance : UInt16) :
    (jump kind distance).size = 3 := rfl

@[simp] theorem size_plain (op : PlainOp) : (plain op).size = 1 := rfl

theorem size_pos (i : Instr) : 0 < i.size := by
  cases i <;> simp [size, bytes]
  split <;> simp

end Instr

/-- An instruction and the source line it belongs to. -/
structure Located where
  line : Nat
  instr : Instr
deriving DecidableEq, Repr

abbrev Code := Array Located

namespace Code

def byteSize (code : Code) : Nat := code.foldl (fun n l => n + l.instr.size) 0

def bytes (code : Code) : Array UInt8 :=
  code.foldl (fun out l => l.instr.bytes.foldl Array.push out) #[]

end Code

end StackCode
