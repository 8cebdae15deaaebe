import StackCode.Machine.Capture

/-!
# Reading code

## Design Notes

Code that comes from elsewhere may be cut short or hold bytes that are no operation. The size of an
instruction does not ask whether its operands are there, save for a closure, whose size depends on
them. The walk stops at the first byte that begins no instruction.
-/

namespace StackCode

/-- The byte at a position, 0 behind the end. -/
def byteAt (code : List UInt8) (position : Nat) : UInt8 := code.getD position 0

def word? (code : List UInt8) (position : Nat) : Option UInt16 :=
  match code.drop position with
  | high :: low :: _ => some (high.toUInt16 <<< 8 ||| low.toUInt16)
  | _ => none

/-- The word at a position, 0 where there is none. -/
def wordAt (code : List UInt8) (position : Nat) : UInt16 := (word? code position).getD 0

/-- The number of bytes that the captured variables at the front take, with their end. -/
def capturesSize? : List UInt8 → Option Nat
  | [] => none
  | flags :: rest =>
    if flags = Place.terminator then some 1
    else if flags &&& Place.longFlag ≠ 0 then
      match rest with
      | _ :: _ :: rest => (capturesSize? rest).map (· + 3)
      | _ => none
    else
      match rest with
      | _ :: rest => (capturesSize? rest).map (· + 2)
      | [] => none

/-- The number of bytes of the instruction at the front. -/
def instructionSize? (code : List UInt8) : Option Nat := do
  let op ← code.head?.bind Opcode.ofByte?
  if op = .closure then
    return (← capturesSize? (code.drop 3)) + 3
  else
    return op.operandSize + 1

/-- The captured variables at the front, up to their end or the end of the code. -/
def readCaptures : List UInt8 → List Place
  | [] => []
  | flags :: rest =>
    if flags = Place.terminator then []
    else
      let source (index : Nat) : Place :=
        if flags &&& Place.localFlag ≠ 0 then .local index else .upvalue index
      if flags &&& Place.longFlag ≠ 0 then
        source (wordAt rest 0).toNat ::
          match rest with
          | _ :: _ :: rest => readCaptures rest
          | _ => []
      else
        source (byteAt rest 0).toNat ::
          match rest with
          | _ :: rest => readCaptures rest
          | [] => []

/-- An instruction in a piece of code. -/
structure Found where
  offset : Nat
  opcode : Opcode
  /-- The code from the instruction on. -/
  code : List UInt8

/-- The instructions of a piece of code. -/
structure Walk where
  instructions : Array Found
  /-- The offset and the byte where the walk stopped, if it did before the end. -/
  stopped : Option (Nat × UInt8)

/-- Goes through code, with the number of bytes that are left of the current instruction. -/
def walkFrom (offset skip : Nat) (found : Array Found) : List UInt8 → Walk
  | [] => ⟨found, none⟩
  | byte :: rest =>
    match skip with
    | skip + 1 => walkFrom (offset + 1) skip found rest
    | 0 =>
      match Opcode.ofByte? byte, instructionSize? (byte :: rest) with
      | some opcode, some size =>
        walkFrom (offset + 1) (size - 1) (found.push ⟨offset, opcode, byte :: rest⟩) rest
      | _, _ => ⟨found, some (offset, byte)⟩

/-- The instructions of a piece of code, one behind the other. -/
def walkCode (code : List UInt8) : Walk := walkFrom 0 0 #[] code

end StackCode
