import StackCode.Function.LineTable
import StackCode.Machine.Walk

/-!
# Written code is read back

A piece of code is written as the bytes of its instructions, one behind the other, and read by a
walk that knows nothing of the instructions. The walk finds each instruction where it was
written and stops nowhere (`walkCode_bytes`): it knows how long each instruction is
(`instructionSize?_bytes`), so it goes on at the first byte of the next one.
-/

namespace StackCode

open List

/-! ## The size of an instruction -/

theorem Place.flag_reads (place : Place) :
    (place.flag ≠ terminator ∧ place.flag &&& longFlag = 0) ∧
      (place.flag ||| longFlag) ≠ terminator ∧ (place.flag ||| longFlag) &&& longFlag ≠ 0 := by
  have flags : place.flag = localFlag ∨ place.flag = 0 := by
    cases place
    · exact .inl rfl
    · exact .inr rfl
  rcases flags with same | same <;> rw [same] <;> decide

theorem capturesSize?_encodeAll (captures : List Place) (rest : List UInt8) :
    capturesSize? (Place.encodeAll captures ++ rest) = some (Place.encodeAll captures).length := by
  induction captures with
  | nil =>
    show capturesSize? (Place.terminator :: rest) = _
    rw [capturesSize?.eq_def]
    exact if_pos rfl
  | cons place captures ih =>
    obtain ⟨⟨shortGoesOn, isShort⟩, longGoesOn, isLong⟩ := place.flag_reads
    have step : Place.encodeAll (place :: captures) = place.bytes ++ Place.encodeAll captures := by
      simp [Place.encodeAll]
    rw [step, List.append_assoc, length_append, Place.length_bytes]
    unfold Place.bytes Place.size
    split
    · rw [cons_append, cons_append, nil_append, capturesSize?.eq_def]
      dsimp only
      rw [if_neg shortGoesOn, if_neg (not_not_intro isShort), ih]
      exact congrArg some (Nat.add_comm _ _)
    · rw [wordBytes, cons_append, cons_append, cons_append, nil_append, capturesSize?.eq_def]
      dsimp only
      rw [if_neg longGoesOn, if_pos isLong, ih]
      exact congrArg some (Nat.add_comm _ _)

theorem Forms.mem_of_dedicated? {forms : Forms} {index : Nat} {op : Opcode}
    (dedicated : forms.dedicated? index = some op) : op ∈ forms.dedicated := by
  unfold dedicated? at dedicated
  split at dedicated
  · exact mem_of_getElem? dedicated
  · cases dedicated

namespace Instr

/-- The operation that an instruction is written with. -/
def opcode : Instr → Opcode
  | .plain op => op.opcode
  | .int value => (Opcode.smallInt? value.toInt).getD .loadInt8
  | .indexed family index => (family.forms.encoding index).opcode
  | .send kind name _ => (kind.forms.encoding name).opcode
  | .call _ => .call
  | .instantiate _ => .instantiate8
  | .defNamespace _ => .defNamespace
  | .slice _ _ => .slice
  | .jump kind _ => kind.opcode
  | .closure _ _ => .closure

/-- The bytes behind that of the operation. -/
def operands : Instr → List UInt8
  | .plain _ => []
  | .int value => if (Opcode.smallInt? value.toInt).isSome then [] else [value.toUInt8]
  | .indexed family index => (family.forms.encoding index).operand
  | .send kind name argc => (kind.forms.encoding name).operand ++ [argc]
  | .call argc => [argc]
  | .instantiate argc => [argc]
  | .defNamespace kind => [kind.tag]
  | .slice front back => [front, back]
  | .jump _ distance => wordBytes distance
  | .closure function captures => wordBytes function ++ Place.encodeAll captures

theorem bytes_eq (i : Instr) : i.bytes = i.opcode.byte :: i.operands := by
  cases i with
  | int value =>
    cases small : Opcode.smallInt? value.toInt <;> simp [bytes, opcode, operands, small]
  | _ => rfl

theorem size_eq (i : Instr) : i.size = i.operands.length + 1 := by
  rw [size, bytes_eq, length_cons]

theorem operandSize_indexed (family : Family) (index : UInt16) :
    (family.forms.encoding index).opcode.operandSize =
      (family.forms.encoding index).operand.length ∧
        (family.forms.encoding index).opcode ≠ .closure := by
  unfold Forms.encoding
  cases dedicated : family.forms.dedicated? index.toNat with
  | some op =>
    have wordless : ∀ (family : Family), ∀ op ∈ family.forms.dedicated,
        op.operandSize = 0 ∧ op ≠ .closure := by
      intro family
      cases family <;> decide
    exact wordless family op (Forms.mem_of_dedicated? dedicated)
  | none =>
    dsimp only
    split <;> cases family <;> exact ⟨rfl, nofun⟩

theorem operandSize_send (kind : CallKind) (name : UInt16) :
    (kind.forms.encoding name).opcode.operandSize = (kind.forms.encoding name).operand.length + 1 ∧
      (kind.forms.encoding name).opcode ≠ .closure := by
  unfold Forms.encoding
  cases kind <;> (dsimp only [CallKind.forms, Forms.dedicated?]; simp only
    [List.getElem?_nil, ite_self])
  all_goals split <;> exact ⟨rfl, nofun⟩

theorem operandSize_smallInt {value : Int} {op : Opcode}
    (small : Opcode.smallInt? value = some op) :
    op.operandSize = 0 ∧ op ≠ .closure := by
  unfold Opcode.smallInt? at small
  split at small <;> cases small <;> decide

/-- **An instruction is as long as it says**, whatever stands behind it. -/
theorem instructionSize?_bytes (i : Instr) (rest : List UInt8) :
    instructionSize? (i.bytes ++ rest) = some i.size := by
  -- Every operation but one has operands of a fixed size.
  have known : ∀ (op : Opcode) (operands : List UInt8), op ≠ .closure → op.operandSize =
      operands.length →
        instructionSize? (op.byte :: operands ++ rest) = some (operands.length + 1) := by
    intro op operands notClosure size
    simp [instructionSize?, Opcode.ofByte?_byte, notClosure, size]
  rw [bytes_eq, size_eq]
  cases i with
  | plain op =>
    refine known _ _ ?_ ?_
    · cases op with
      | unary operator => cases operator <;> decide
      | binary operator => cases operator <;> decide
      | _ => decide
    · cases op with
      | unary operator => cases operator <;> rfl
      | binary operator => cases operator <;> rfl
      | _ => rfl
  | int value =>
    cases small : Opcode.smallInt? value.toInt with
    | none =>
      simp only [opcode, operands, small]
      exact known .loadInt8 [value.toUInt8] (by decide) rfl
    | some op =>
      simp only [opcode, operands, small]
      exact known op [] (operandSize_smallInt small).2 (operandSize_smallInt small).1
  | indexed family index =>
    exact known _ _ (operandSize_indexed family index).2 (operandSize_indexed family index).1
  | send kind name argc =>
    refine known _ _ (operandSize_send kind name).2 ?_
    rw [operands, length_append, length_singleton]
    exact (operandSize_send kind name).1
  | call argc => exact known _ _ nofun rfl
  | instantiate argc => exact known _ _ nofun rfl
  | defNamespace kind => exact known _ _ nofun rfl
  | slice front back => exact known _ _ nofun rfl
  | jump kind distance => cases kind <;> exact known _ _ nofun rfl
  | closure function captures =>
    have size := capturesSize?_encodeAll captures rest
    simp [instructionSize?, Opcode.ofByte?_byte, opcode, operands, wordBytes, size]

end Instr

/-! ## Walks -/

/-- The bytes of some instructions. -/
def bytesOf (instrs : List Instr) : List UInt8 := instrs.flatMap Instr.bytes

/-- The instructions as a walk finds them, from an offset on. -/
def foundIn : Nat → List Instr → List Found
  | _, [] => []
  | offset, i :: rest => ⟨offset, i.opcode, bytesOf (i :: rest)⟩ :: foundIn (offset + i.size) rest

theorem length_foundIn (offset : Nat) (instrs : List Instr) :
    (foundIn offset instrs).length = instrs.length := by
  induction instrs generalizing offset with
  | nil => rfl
  | cons i rest ih => rw [foundIn, length_cons, length_cons, ih]

theorem walkFrom_skip (operands rest : List UInt8) (offset : Nat) (found : Array Found) :
    walkFrom offset operands.length found (operands ++ rest) =
      walkFrom (offset + operands.length) 0 found rest := by
  induction operands generalizing offset with
  | nil => rfl
  | cons byte operands ih =>
    rw [length_cons, cons_append, walkFrom]
    rw [ih, Nat.add_right_comm, Nat.add_assoc]

theorem walkFrom_instr (i : Instr) (offset : Nat) (found : Array Found) (after : List UInt8) :
    walkFrom offset 0 found (i.bytes ++ after) =
      walkFrom (offset + i.size) 0 (found.push ⟨offset, i.opcode, i.bytes ++ after⟩) after := by
  have size := i.instructionSize?_bytes after
  rw [Instr.bytes_eq, cons_append] at size ⊢
  rw [walkFrom]
  simp only [Opcode.ofByte?_byte, size]
  rw [Instr.size_eq, Nat.add_sub_cancel, walkFrom_skip, Nat.add_assoc, Nat.add_comm 1]

theorem walkFrom_bytes (instrs : List Instr) (offset : Nat) (found : Array Found) :
    walkFrom offset 0 found (bytesOf instrs) = ⟨found ++ foundIn offset instrs, none⟩ := by
  induction instrs generalizing offset found with
  | nil => simp [bytesOf, foundIn, walkFrom]
  | cons i rest ih =>
    rw [foundIn, bytesOf, flatMap_cons, ← bytesOf, walkFrom_instr, ih]
    simp [bytesOf]

namespace Code

/-- The instructions of some code. -/
def instrs (code : Code) : List Instr := code.toList.map Located.instr

@[simp] theorem instrs_append (a b : Code) : instrs (a ++ b) = a.instrs ++ b.instrs := by
  simp [instrs]

@[simp] theorem instrs_push (code : Code) (i : Located) :
    instrs (code.push i) = code.instrs ++ [i.instr] := by
  simp [instrs]

theorem toList_bytes (code : Code) : code.bytes.toList = bytesOf code.instrs := by
  have step : ∀ (located : List Located) (out : Array UInt8),
      (located.foldl (fun out l => l.instr.bytes.foldl Array.push out) out).toList =
        out.toList ++ bytesOf (located.map Located.instr) := by
    intro located
    induction located with
    | nil => simp [bytesOf]
    | cons l rest ih =>
      intro out
      rw [foldl_cons, ih]
      simp [bytesOf]
  rw [bytes, ← Array.foldl_toList, step]
  rfl

/-- **A walk finds the instructions that were written, each at its offset, and reads all bytes.** -/
theorem walkCode_bytes (code : Code) :
    walkCode code.bytes.toList = ⟨(foundIn 0 code.instrs).toArray, none⟩ := by
  rw [walkCode, toList_bytes, walkFrom_bytes]
  simp

end Code

/-! ## Operands -/

theorem joinBytes (w : UInt16) : (w >>> 8).toUInt8.toUInt16 <<< 8 ||| w.toUInt8.toUInt16 = w := by
  have bound := w.toNat_lt
  have low : w.toNat % 256 < 2 ^ 8 := Nat.mod_lt _ (by decide)
  have high : w.toNat >>> 8 % 256 = w.toNat / 256 := by
    rw [Nat.shiftRight_eq_div_pow]
    omega
  have shifted : (w.toNat / 256) <<< 8 % 65536 = (w.toNat / 256) <<< 8 := by
    rw [Nat.shiftLeft_eq]
    omega
  apply UInt16.toNat_inj.1
  calc ((w >>> 8).toUInt8.toUInt16 <<< 8 ||| w.toUInt8.toUInt16).toNat
      = (w.toNat >>> 8 % 256) <<< 8 % 65536 ||| w.toNat % 256 := by simp
    _ = (w.toNat / 256) <<< 8 + w.toNat % 256 :=
      by rw [high, shifted, Nat.shiftLeft_add_eq_or_of_lt low]
    _ = w.toNat := by
      rw [Nat.shiftLeft_eq]
      omega

theorem wordAt_wordBytes (byte : UInt8) (w : UInt16) (rest : List UInt8) :
    wordAt (byte :: (wordBytes w ++ rest)) 1 = w :=
  joinBytes w

theorem Forms.opcode_encoding_mem (forms : Forms) (index : UInt16) :
    (forms.encoding index).opcode ∈ forms.short :: forms.long :: forms.dedicated := by
  unfold encoding
  cases dedicated : forms.dedicated? index.toNat with
  | some op =>
    exact mem_cons_of_mem _ (mem_cons_of_mem _ (mem_of_dedicated? dedicated))
  | none =>
    dsimp only
    split <;> simp [Encoding.opcode]

/-! ## Line tables -/

theorem LineTable.total_prepend (t : LineTable) (line : Nat) :
    (t.prepend line 1).total = t.total + 1 := by
  unfold prepend total
  rw [if_neg Nat.one_ne_zero]
  split
  · rename_i none
    simp [none]
  · rename_i first rest some
    rw [some]
    split
    · simp [Nat.add_right_comm]
    · simp [Nat.add_comm 1]

theorem LineTable.total_ofCode (code : Code) :
    (LineTable.ofCode code).total = code.instrs.length := by
  have counts : ∀ located : List Located,
      (located.foldr (fun l t => prepend t l.line 1) empty).total = located.length := by
    intro located
    induction located with
    | nil => rfl
    | cons l rest ih => rw [foldr_cons, total_prepend, ih, length_cons]
  rw [ofCode, ← Array.foldr_toList, counts, Code.instrs, length_map]

end StackCode
