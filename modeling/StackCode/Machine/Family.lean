import StackCode.Machine.Opcode

/-!
# Index families

Operations that address the same thing by an index come in families: operations of their own for the
lowest indices, one with an operand of 8 bits and one with an operand of 16.
-/

namespace StackCode

/-- A family of operations that take an index and nothing else. -/
inductive Family where
  | getLocal
  | setLocal
  | closeUpvalue
  | getUpvalue
  | setUpvalue
  | loadValue
  | getConst
  | getIvar
  | setIvar
  | getIvarName
  | setIvarName
  | prepLocals
  | newList
  | newTuple
  | newMap
deriving DecidableEq, Repr

/-- The calls by name, which take the index of the name and a number of arguments. -/
inductive CallKind where
  /-- A call on the receiver that was pushed before the arguments. -/
  | method
  /-- A call on the receiver of the caller. -/
  | self
deriving DecidableEq, Repr

/-- An operation with its index. -/
inductive Encoding where
  /-- The operation stands for the index. -/
  | dedicated (op : Opcode)
  | short (op : Opcode) (index : UInt8)
  | long (op : Opcode) (index : UInt16)
deriving DecidableEq, Repr

/-- The two bytes of a word, the more significant one first. -/
def wordBytes (w : UInt16) : List UInt8 := [(w >>> 8).toUInt8, w.toUInt8]

namespace Encoding

def opcode : Encoding → Opcode
  | .dedicated op => op
  | .short op _ => op
  | .long op _ => op

def operand : Encoding → List UInt8
  | .dedicated _ => []
  | .short _ index => [index]
  | .long _ index => wordBytes index

end Encoding

/-- The operations of a family. -/
structure Forms where
  /-- The operations for the lowest indices. -/
  dedicated : List Opcode
  first : Nat
  /-- The operation with an index of 8 bits. -/
  short : Opcode
  /-- The operation with an index of 16 bits. -/
  long : Opcode

namespace Forms

def dedicated? (f : Forms) (index : Nat) : Option Opcode :=
  if f.first ≤ index then f.dedicated[index - f.first]? else none

/-- The shortest operation for an index. -/
def encoding (f : Forms) (index : UInt16) : Encoding :=
  match f.dedicated? index.toNat with
  | some op => .dedicated op
  | none => if index.toNat < 256 then .short f.short index.toUInt8 else .long f.long index

/-- The shortest operation for an index, or `none` when it has more than 16 bits. -/
def select (f : Forms) (index : Nat) : Option Encoding :=
  if index < 65536 then some (f.encoding (UInt16.ofNat index)) else none

end Forms

/-- The operations of a family. Slot 0 is the receiver, so slots begin at 1. -/
def Family.forms : Family → Forms
  | .getLocal => ⟨[.getLocal1, .getLocal2, .getLocal3, .getLocal4], 1, .getLocal8, .getLocal16⟩
  | .setLocal => ⟨[.setLocal1, .setLocal2, .setLocal3, .setLocal4], 1, .setLocal8, .setLocal16⟩
  | .closeUpvalue =>
    ⟨[.closeUpvalue1, .closeUpvalue2, .closeUpvalue3, .closeUpvalue4], 1, .closeUpvalue8,
      .closeUpvalue16⟩
  | .getUpvalue => ⟨[.getUpvalue0, .getUpvalue1], 0, .getUpvalue8, .getUpvalue16⟩
  | .setUpvalue => ⟨[.setUpvalue0, .setUpvalue1], 0, .setUpvalue8, .setUpvalue16⟩
  | .loadValue =>
    ⟨[.loadValue0, .loadValue1, .loadValue2, .loadValue3], 0, .loadValue8, .loadValue16⟩
  | .getConst => ⟨[], 0, .getConst8, .getConst16⟩
  | .getIvar => ⟨[], 0, .getIvar8, .getIvar16⟩
  | .setIvar => ⟨[], 0, .setIvar8, .setIvar16⟩
  | .getIvarName => ⟨[], 0, .getIvarName8, .getIvarName16⟩
  | .setIvarName => ⟨[], 0, .setIvarName8, .setIvarName16⟩
  | .prepLocals => ⟨[], 0, .prepLocals8, .prepLocals16⟩
  | .newList => ⟨[], 0, .newList8, .newList16⟩
  | .newTuple => ⟨[], 0, .newTuple8, .newTuple16⟩
  | .newMap => ⟨[], 0, .newMap8, .newMap16⟩

def CallKind.forms : CallKind → Forms
  | .method => ⟨[], 0, .callMethod8, .callMethod16⟩
  | .self => ⟨[], 0, .callSelf8, .callSelf16⟩

def Opcode.smallInt? (value : Int) : Option Opcode :=
  match value with
  | 0 => some .loadInt0
  | 1 => some .loadInt1
  | 2 => some .loadInt2
  | 3 => some .loadInt3
  | 4 => some .loadInt4
  | 5 => some .loadInt5
  | _ => none

end StackCode
