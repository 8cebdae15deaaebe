/-!
# Operation codes

The stack machine has 110 operations of one byte each. Operands follow in the next bytes, the more
significant byte first.
-/

namespace StackCode

/-- An operation of the stack machine. -/
inductive Opcode where
  | noop
  | pop
  | dup
  | pushNil
  | pushTrue
  | pushFalse
  /-- Pushes the receiver, which is in slot 0. -/
  | pushSelf
  | loadInt0
  | loadInt1
  | loadInt2
  | loadInt3
  | loadInt4
  | loadInt5
  /-- Pushes the integer in the byte behind it. -/
  | loadInt8
  | loadValue0
  | loadValue1
  | loadValue2
  | loadValue3
  | loadValue8
  | loadValue16
  /-- Makes room for local variables. -/
  | prepLocals8
  | prepLocals16
  | getLocal1
  | getLocal2
  | getLocal3
  | getLocal4
  | getLocal8
  | getLocal16
  | setLocal1
  | setLocal2
  | setLocal3
  | setLocal4
  | setLocal8
  | setLocal16
  | getUpvalue0
  | getUpvalue1
  | getUpvalue8
  | getUpvalue16
  | setUpvalue0
  | setUpvalue1
  | setUpvalue8
  | setUpvalue16
  /-- Moves a captured slot into a cell of its own. -/
  | closeUpvalue1
  | closeUpvalue2
  | closeUpvalue3
  | closeUpvalue4
  | closeUpvalue8
  | closeUpvalue16
  /-- Makes a closure of a function and the variables it captures. -/
  | closure
  /-- Pushes the constant that a symbol of the pool names. -/
  | getConst8
  | getConst16
  /-- Stack: `[namespace, name, value] → []` -/
  | defConst
  /-- Stack: `[parent, name] → []` -/
  | defNamespace
  /-- Stack: `[class, superclass] → []` -/
  | setSuperclass
  /-- Stack: `[namespace, mixin] → []` -/
  | includeMixin
  /-- Stack: `[namespace] → [singleton]` -/
  | getSingleton
  /-- Stack: `[namespace, table] → []` -/
  | defIvars
  /-- Stack: `[namespace, function, name] → []` -/
  | defMethod
  /-- Stack: `[namespace, name] → []` -/
  | defGetter
  /-- Stack: `[namespace, name] → []` -/
  | defSetter
  /-- Stack: `[namespace, new name, old name] → []` -/
  | defMethodAlias
  /-- Stack: `[namespace, body] → []`, with the namespace as receiver of the body. -/
  | initNamespace
  /-- Stack: `[function] → [result]` -/
  | exec
  /-- Instance variables by slot. -/
  | getIvar8
  | getIvar16
  | setIvar8
  | setIvar16
  /-- Instance variables by name, looked up in the class of the receiver. -/
  | getIvarName8
  | getIvarName16
  | setIvarName8
  | setIvarName16
  | add
  | subtract
  | multiply
  | divide
  | modulo
  | negate
  | invert
  | equal
  | notEqual
  | less
  | lessEqual
  | greater
  | greaterEqual
  /-- Goes forward. -/
  | jump
  /-- Goes back. -/
  | loop
  /-- Pops; goes forward if the value is falsy. -/
  | jumpUnless
  /-- Pops; goes forward if the value is truthy. -/
  | jumpIf
  /-- Goes forward if the value is falsy, and keeps it. -/
  | jumpUnlessNp
  /-- Goes forward if the value is truthy, and keeps it. -/
  | jumpIfNp
  /-- Pops; goes forward unless the value is the mark of a missing argument. -/
  | jumpUnlessMissing
  /-- Stack: `[receiver, arguments …] → [result]` -/
  | callMethod8
  | callMethod16
  /-- Stack: `[arguments …] → [result]`, with the receiver of the caller. -/
  | callSelf8
  | callSelf16
  /-- Stack: `[callable, arguments …] → [result]` -/
  | call
  /-- Stack: `[class, arguments …] → [instance]` -/
  | instantiate8
  | newList8
  | newList16
  | newTuple8
  | newTuple16
  /-- Takes pairs of a key and a value. -/
  | newMap8
  | newMap16
  | subscript
  /-- Stack: `[value, class] → [truth value]` -/
  | isA
  /-- Stack: `[collection] → [integer]` -/
  | length
  /-- Stack: `[map, key] → [truth value]` -/
  | hasKey
  /-- Stack: `[sequence] → [list]`, leaving elements out at the front and at the end. -/
  | slice
  | raise
  | ret
deriving DecidableEq, Repr

namespace Opcode

def count : Nat := 110

def byte (op : Opcode) : UInt8 := UInt8.ofNat op.ctorIdx

def ofByte? (b : UInt8) : Option Opcode :=
  if b.toNat < count then some (ofNat b.toNat) else none

def mnemonic : Opcode → String
  | .noop => "NOOP"
  | .pop => "POP"
  | .dup => "DUP"
  | .pushNil => "NIL"
  | .pushTrue => "TRUE"
  | .pushFalse => "FALSE"
  | .pushSelf => "SELF"
  | .loadInt0 => "LOAD_INT_0"
  | .loadInt1 => "LOAD_INT_1"
  | .loadInt2 => "LOAD_INT_2"
  | .loadInt3 => "LOAD_INT_3"
  | .loadInt4 => "LOAD_INT_4"
  | .loadInt5 => "LOAD_INT_5"
  | .loadInt8 => "LOAD_INT_8"
  | .loadValue0 => "LOAD_VALUE_0"
  | .loadValue1 => "LOAD_VALUE_1"
  | .loadValue2 => "LOAD_VALUE_2"
  | .loadValue3 => "LOAD_VALUE_3"
  | .loadValue8 => "LOAD_VALUE8"
  | .loadValue16 => "LOAD_VALUE16"
  | .prepLocals8 => "PREP_LOCALS8"
  | .prepLocals16 => "PREP_LOCALS16"
  | .getLocal1 => "GET_LOCAL_1"
  | .getLocal2 => "GET_LOCAL_2"
  | .getLocal3 => "GET_LOCAL_3"
  | .getLocal4 => "GET_LOCAL_4"
  | .getLocal8 => "GET_LOCAL8"
  | .getLocal16 => "GET_LOCAL16"
  | .setLocal1 => "SET_LOCAL_1"
  | .setLocal2 => "SET_LOCAL_2"
  | .setLocal3 => "SET_LOCAL_3"
  | .setLocal4 => "SET_LOCAL_4"
  | .setLocal8 => "SET_LOCAL8"
  | .setLocal16 => "SET_LOCAL16"
  | .getUpvalue0 => "GET_UPVALUE_0"
  | .getUpvalue1 => "GET_UPVALUE_1"
  | .getUpvalue8 => "GET_UPVALUE8"
  | .getUpvalue16 => "GET_UPVALUE16"
  | .setUpvalue0 => "SET_UPVALUE_0"
  | .setUpvalue1 => "SET_UPVALUE_1"
  | .setUpvalue8 => "SET_UPVALUE8"
  | .setUpvalue16 => "SET_UPVALUE16"
  | .closeUpvalue1 => "CLOSE_UPVALUE_1"
  | .closeUpvalue2 => "CLOSE_UPVALUE_2"
  | .closeUpvalue3 => "CLOSE_UPVALUE_3"
  | .closeUpvalue4 => "CLOSE_UPVALUE_4"
  | .closeUpvalue8 => "CLOSE_UPVALUE8"
  | .closeUpvalue16 => "CLOSE_UPVALUE16"
  | .closure => "CLOSURE"
  | .getConst8 => "GET_CONST8"
  | .getConst16 => "GET_CONST16"
  | .defConst => "DEF_CONST"
  | .defNamespace => "DEF_NAMESPACE"
  | .setSuperclass => "SET_SUPERCLASS"
  | .includeMixin => "INCLUDE"
  | .getSingleton => "GET_SINGLETON"
  | .defIvars => "DEF_IVARS"
  | .defMethod => "DEF_METHOD"
  | .defGetter => "DEF_GETTER"
  | .defSetter => "DEF_SETTER"
  | .defMethodAlias => "DEF_METHOD_ALIAS"
  | .initNamespace => "INIT_NAMESPACE"
  | .exec => "EXEC"
  | .getIvar8 => "GET_IVAR8"
  | .getIvar16 => "GET_IVAR16"
  | .setIvar8 => "SET_IVAR8"
  | .setIvar16 => "SET_IVAR16"
  | .getIvarName8 => "GET_IVAR_NAME8"
  | .getIvarName16 => "GET_IVAR_NAME16"
  | .setIvarName8 => "SET_IVAR_NAME8"
  | .setIvarName16 => "SET_IVAR_NAME16"
  | .add => "ADD"
  | .subtract => "SUBTRACT"
  | .multiply => "MULTIPLY"
  | .divide => "DIVIDE"
  | .modulo => "MODULO"
  | .negate => "NEGATE"
  | .invert => "NOT"
  | .equal => "EQUAL"
  | .notEqual => "NOT_EQUAL"
  | .less => "LESS"
  | .lessEqual => "LESS_EQUAL"
  | .greater => "GREATER"
  | .greaterEqual => "GREATER_EQUAL"
  | .jump => "JUMP"
  | .loop => "LOOP"
  | .jumpUnless => "JUMP_UNLESS"
  | .jumpIf => "JUMP_IF"
  | .jumpUnlessNp => "JUMP_UNLESS_NP"
  | .jumpIfNp => "JUMP_IF_NP"
  | .jumpUnlessMissing => "JUMP_UNLESS_UNDEF"
  | .callMethod8 => "CALL_METHOD8"
  | .callMethod16 => "CALL_METHOD16"
  | .callSelf8 => "CALL_SELF8"
  | .callSelf16 => "CALL_SELF16"
  | .call => "CALL"
  | .instantiate8 => "INSTANTIATE8"
  | .newList8 => "NEW_LIST8"
  | .newList16 => "NEW_LIST16"
  | .newTuple8 => "NEW_TUPLE8"
  | .newTuple16 => "NEW_TUPLE16"
  | .newMap8 => "NEW_MAP8"
  | .newMap16 => "NEW_MAP16"
  | .subscript => "SUBSCRIPT"
  | .isA => "IS_A"
  | .length => "LEN"
  | .hasKey => "HAS_KEY"
  | .slice => "SLICE"
  | .raise => "THROW"
  | .ret => "RETURN"

/-- The number of bytes that the operands take; for `closure`, of the function's index alone. -/
def operandSize : Opcode → Nat
  | .loadInt8 => 1
  | .loadValue8 => 1
  | .prepLocals8 => 1
  | .getLocal8 => 1
  | .setLocal8 => 1
  | .getUpvalue8 => 1
  | .setUpvalue8 => 1
  | .closeUpvalue8 => 1
  | .getConst8 => 1
  | .defNamespace => 1
  | .getIvar8 => 1
  | .setIvar8 => 1
  | .getIvarName8 => 1
  | .setIvarName8 => 1
  | .call => 1
  | .instantiate8 => 1
  | .newList8 => 1
  | .newTuple8 => 1
  | .newMap8 => 1
  | .loadValue16 => 2
  | .prepLocals16 => 2
  | .getLocal16 => 2
  | .setLocal16 => 2
  | .getUpvalue16 => 2
  | .setUpvalue16 => 2
  | .closeUpvalue16 => 2
  | .getConst16 => 2
  | .getIvar16 => 2
  | .setIvar16 => 2
  | .getIvarName16 => 2
  | .setIvarName16 => 2
  | .newList16 => 2
  | .newTuple16 => 2
  | .newMap16 => 2
  | .jump => 2
  | .loop => 2
  | .jumpUnless => 2
  | .jumpIf => 2
  | .jumpUnlessNp => 2
  | .jumpIfNp => 2
  | .jumpUnlessMissing => 2
  | .callMethod8 => 2
  | .callSelf8 => 2
  | .slice => 2
  | .closure => 2
  | .callMethod16 => 3
  | .callSelf16 => 3
  | _ => 0

/-- Whether an operation may go on elsewhere than behind itself. -/
def isJump : Opcode → Bool
  | .jump => true
  | .loop => true
  | .jumpUnless => true
  | .jumpIf => true
  | .jumpUnlessNp => true
  | .jumpIfNp => true
  | .jumpUnlessMissing => true
  | _ => false

@[simp] theorem ofByte?_byte (op : Opcode) : ofByte? op.byte = some op := by
  cases op <;> rfl

end Opcode

end StackCode
