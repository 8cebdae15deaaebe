import StackCode.Proofs.WellFormed

/-!
# Instructions are read back

A walk finds where each instruction of a function begins. Here the instruction itself is read
from the bytes that it finds (`Found.instr?`), with its operands, so that what is said of a
compiled function is said of its bytes. Reading gives back what was written
(`Instr.instr?_operands`), as long as captured variables have indices of 16 bits.
-/

namespace StackCode

open List Option

/-- The instruction of an operation and the bytes behind it. Two operations are never written. -/
def Opcode.instr? (op : Opcode) (operands : List UInt8) : Option Instr :=
  let byte := byteAt operands 0
  let word := wordAt operands 0
  match op with
  | .noop => none
  | .dup => none
  | .pop => some (.plain .pop)
  | .pushNil => some (.plain .pushNil)
  | .pushTrue => some (.plain .pushTrue)
  | .pushFalse => some (.plain .pushFalse)
  | .pushSelf => some (.plain .pushSelf)
  | .loadInt0 => some (.int 0)
  | .loadInt1 => some (.int 1)
  | .loadInt2 => some (.int 2)
  | .loadInt3 => some (.int 3)
  | .loadInt4 => some (.int 4)
  | .loadInt5 => some (.int 5)
  | .loadInt8 => some (.int byte.toInt8)
  | .loadValue0 => some (.indexed .loadValue 0)
  | .loadValue1 => some (.indexed .loadValue 1)
  | .loadValue2 => some (.indexed .loadValue 2)
  | .loadValue3 => some (.indexed .loadValue 3)
  | .loadValue8 => some (.indexed .loadValue byte.toUInt16)
  | .loadValue16 => some (.indexed .loadValue word)
  | .prepLocals8 => some (.indexed .prepLocals byte.toUInt16)
  | .prepLocals16 => some (.indexed .prepLocals word)
  | .getLocal1 => some (.indexed .getLocal 1)
  | .getLocal2 => some (.indexed .getLocal 2)
  | .getLocal3 => some (.indexed .getLocal 3)
  | .getLocal4 => some (.indexed .getLocal 4)
  | .getLocal8 => some (.indexed .getLocal byte.toUInt16)
  | .getLocal16 => some (.indexed .getLocal word)
  | .setLocal1 => some (.indexed .setLocal 1)
  | .setLocal2 => some (.indexed .setLocal 2)
  | .setLocal3 => some (.indexed .setLocal 3)
  | .setLocal4 => some (.indexed .setLocal 4)
  | .setLocal8 => some (.indexed .setLocal byte.toUInt16)
  | .setLocal16 => some (.indexed .setLocal word)
  | .getUpvalue0 => some (.indexed .getUpvalue 0)
  | .getUpvalue1 => some (.indexed .getUpvalue 1)
  | .getUpvalue8 => some (.indexed .getUpvalue byte.toUInt16)
  | .getUpvalue16 => some (.indexed .getUpvalue word)
  | .setUpvalue0 => some (.indexed .setUpvalue 0)
  | .setUpvalue1 => some (.indexed .setUpvalue 1)
  | .setUpvalue8 => some (.indexed .setUpvalue byte.toUInt16)
  | .setUpvalue16 => some (.indexed .setUpvalue word)
  | .closeUpvalue1 => some (.indexed .closeUpvalue 1)
  | .closeUpvalue2 => some (.indexed .closeUpvalue 2)
  | .closeUpvalue3 => some (.indexed .closeUpvalue 3)
  | .closeUpvalue4 => some (.indexed .closeUpvalue 4)
  | .closeUpvalue8 => some (.indexed .closeUpvalue byte.toUInt16)
  | .closeUpvalue16 => some (.indexed .closeUpvalue word)
  | .closure => some (.closure word (readCaptures (operands.drop 2)))
  | .getConst8 => some (.indexed .getConst byte.toUInt16)
  | .getConst16 => some (.indexed .getConst word)
  | .defConst => some (.plain .defConst)
  | .defNamespace => (NamespaceKind.ofTag? byte).map .defNamespace
  | .setSuperclass => some (.plain .setSuperclass)
  | .includeMixin => some (.plain .includeMixin)
  | .getSingleton => some (.plain .getSingleton)
  | .defIvars => some (.plain .defIvars)
  | .defMethod => some (.plain .defMethod)
  | .defGetter => some (.plain .defGetter)
  | .defSetter => some (.plain .defSetter)
  | .defMethodAlias => some (.plain .defMethodAlias)
  | .initNamespace => some (.plain .initNamespace)
  | .exec => some (.plain .exec)
  | .getIvar8 => some (.indexed .getIvar byte.toUInt16)
  | .getIvar16 => some (.indexed .getIvar word)
  | .setIvar8 => some (.indexed .setIvar byte.toUInt16)
  | .setIvar16 => some (.indexed .setIvar word)
  | .getIvarName8 => some (.indexed .getIvarName byte.toUInt16)
  | .getIvarName16 => some (.indexed .getIvarName word)
  | .setIvarName8 => some (.indexed .setIvarName byte.toUInt16)
  | .setIvarName16 => some (.indexed .setIvarName word)
  | .add => some (.plain (.binary .add))
  | .subtract => some (.plain (.binary .subtract))
  | .multiply => some (.plain (.binary .multiply))
  | .divide => some (.plain (.binary .divide))
  | .modulo => some (.plain (.binary .modulo))
  | .negate => some (.plain (.unary .negate))
  | .invert => some (.plain (.unary .not))
  | .equal => some (.plain (.binary .equal))
  | .notEqual => some (.plain (.binary .notEqual))
  | .less => some (.plain (.binary .less))
  | .lessEqual => some (.plain (.binary .lessEqual))
  | .greater => some (.plain (.binary .greater))
  | .greaterEqual => some (.plain (.binary .greaterEqual))
  | .jump => some (.jump .always word)
  | .loop => some (.jump .back word)
  | .jumpUnless => some (.jump .whenFalse word)
  | .jumpIf => some (.jump .whenTrue word)
  | .jumpUnlessNp => some (.jump .whenFalseKeep word)
  | .jumpIfNp => some (.jump .whenTrueKeep word)
  | .jumpUnlessMissing => some (.jump .unlessMissing word)
  | .callMethod8 => some (.send .method byte.toUInt16 (byteAt operands 1))
  | .callMethod16 => some (.send .method word (byteAt operands 2))
  | .callSelf8 => some (.send .self byte.toUInt16 (byteAt operands 1))
  | .callSelf16 => some (.send .self word (byteAt operands 2))
  | .call => some (.call byte)
  | .instantiate8 => some (.instantiate byte)
  | .newList8 => some (.indexed .newList byte.toUInt16)
  | .newList16 => some (.indexed .newList word)
  | .newTuple8 => some (.indexed .newTuple byte.toUInt16)
  | .newTuple16 => some (.indexed .newTuple word)
  | .newMap8 => some (.indexed .newMap byte.toUInt16)
  | .newMap16 => some (.indexed .newMap word)
  | .subscript => some (.plain .subscript)
  | .isA => some (.plain .isA)
  | .length => some (.plain .length)
  | .hasKey => some (.plain .hasKey)
  | .slice => some (.slice byte (byteAt operands 1))
  | .raise => some (.plain .raise)
  | .ret => some (.plain .ret)

/-- The instruction that was found. -/
def Found.instr? (i : Found) : Option Instr := i.opcode.instr? (i.code.drop 1)

/-- The instruction at a place of some code. -/
def instrAt? (code : Array UInt8) (place : Int) : Option Instr :=
  ((walkCode code.toList).instructions.toList.find? fun i => (i.offset : Int) = place).bind
    Found.instr?

/-- The instructions of a function, as its code is read back. -/
def CompiledFunction.reads (f : CompiledFunction) : List Instr :=
  f.instructions.filterMap Found.instr?

/-! ## Operands -/

/-- The index of a place has 16 bits, so that it is written in full. -/
def Place.Fits (place : Place) : Prop := place.index < 65536

instance (place : Place) : Decidable place.Fits := inferInstanceAs (Decidable (_ < _))

theorem Place.kind_reads (place : Place) :
    (if place.flag &&& localFlag ≠ 0 then Place.local place.index
      else .upvalue place.index) = place ∧
    (if (place.flag ||| longFlag) &&& localFlag ≠ 0 then Place.local place.index
      else .upvalue place.index) = place := by
  cases place with
  | «local» slot =>
    have isLocal : localFlag &&& localFlag ≠ 0 ∧ (localFlag ||| longFlag) &&& localFlag ≠ 0 := by
      decide
    exact ⟨if_pos isLocal.1, if_pos isLocal.2⟩
  | upvalue index =>
    have isUpvalue : ¬(0 : UInt8) &&& localFlag ≠ 0 ∧ ¬(0 ||| longFlag) &&& localFlag ≠ 0 := by
      decide
    exact ⟨if_neg isUpvalue.1, if_neg isUpvalue.2⟩

theorem readCaptures_encodeAll {places : List Place} (fit : ∀ place ∈ places, place.Fits)
    (rest : List UInt8) : readCaptures (Place.encodeAll places ++ rest) = places := by
  induction places with
  | nil =>
    show readCaptures (Place.terminator :: rest) = []
    rw [readCaptures.eq_def]
    exact if_pos rfl
  | cons place places ih =>
    have others := ih fun other member => fit other (mem_cons_of_mem place member)
    have fits : place.index < 65536 := fit place mem_cons_self
    obtain ⟨⟨shortGoesOn, isShort⟩, longGoesOn, isLong⟩ := place.flag_reads
    have split : Place.encodeAll (place :: places) = place.bytes ++ Place.encodeAll places := by
      simp [Place.encodeAll]
    rw [split, List.append_assoc]
    unfold Place.bytes
    split
    · rename_i small
      have index : (UInt8.ofNat place.index).toNat = place.index := UInt8.toNat_ofNat_of_lt' small
      rw [cons_append, cons_append, nil_append, readCaptures.eq_def]
      dsimp only
      rw [if_neg shortGoesOn, if_neg (not_not_intro isShort), others]
      simp only [byteAt, getD_cons_zero, index]
      rw [place.kind_reads.1]
    · have index : (UInt16.ofNat place.index).toNat = place.index := UInt16.toNat_ofNat_of_lt' fits
      rw [wordBytes, cons_append, cons_append, cons_append, nil_append, readCaptures.eq_def]
      dsimp only
      rw [if_neg longGoesOn, if_pos isLong, others]
      simp only [wordAt, word?, drop_zero, getD_some, joinBytes, index]
      rw [place.kind_reads.2]

/-- The captured variables of an instruction can be written in full. -/
def Instr.Fits : Instr → Prop
  | .closure _ captures => ∀ place ∈ captures, place.Fits
  | _ => True

instance : DecidablePred Instr.Fits
  | .closure _ captures => inferInstanceAs (Decidable (∀ place ∈ captures, place.Fits))
  | .plain _ | .int _ | .indexed _ _ | .send _ _ _ | .call _ | .instantiate _ | .defNamespace _
  | .slice _ _ | .jump _ _ => isTrue trivial

/-! ## Indices -/

theorem wordAt_wordBytes_append (w : UInt16) (rest : List UInt8) :
    wordAt (wordBytes w ++ rest) 0 = w :=
  joinBytes w

theorem toUInt16_toUInt8 {index : UInt16} (small : index.toNat < 256) :
    index.toUInt8.toUInt16 = index := by
  apply UInt16.toNat_inj.1
  simp only [UInt8.toNat_toUInt16, UInt16.toNat_toUInt8]
  omega

theorem instr?_dedicated {family : Family} {index : UInt16} {op : Opcode}
    (dedicated : family.forms.dedicated? index.toNat = some op) (operands : List UInt8) :
    op.instr? operands = some (.indexed family index) := by
  have each : ∀ (family : Family) (k : Nat) (op : Opcode), family.forms.dedicated[k]? = some op →
      op.instr? operands = some (.indexed family (UInt16.ofNat (family.forms.first + k))) := by
    intro family k op
    cases family <;> rcases k with _ | _ | _ | _ | k <;>
      simp [Family.forms] <;> rintro rfl <;> rfl
  unfold Forms.dedicated? at dedicated
  split at dedicated
  · rename_i low
    have same : UInt16.ofNat (family.forms.first + (index.toNat - family.forms.first)) = index := by
      rw [Nat.add_sub_cancel' low, UInt16.ofNat_toNat]
    rw [each family _ op dedicated, same]
  · cases dedicated

theorem instr?_indexed (family : Family) (index : UInt16) (rest : List UInt8) :
    (family.forms.encoding index).opcode.instr?
      ((family.forms.encoding index).operand ++ rest) = some (.indexed family index) := by
  unfold Forms.encoding
  cases dedicated : family.forms.dedicated? index.toNat with
  | some op => exact instr?_dedicated dedicated _
  | none =>
    dsimp only
    split
    · rename_i small
      have same := toUInt16_toUInt8 small
      cases family <;> simp [Encoding.opcode, Encoding.operand, Family.forms, Opcode.instr?,
        byteAt, same]
    · have same := wordAt_wordBytes_append index rest
      cases family <;> simp [Encoding.opcode, Encoding.operand, Family.forms, Opcode.instr?, same]

theorem instr?_send (kind : CallKind) (name : UInt16) (argc : UInt8) (rest : List UInt8) :
    (kind.forms.encoding name).opcode.instr?
      ((kind.forms.encoding name).operand ++ [argc] ++ rest) = some (.send kind name argc) := by
  have none : kind.forms.dedicated? name.toNat = none := by
    cases kind <;> simp [CallKind.forms, Forms.dedicated?]
  unfold Forms.encoding
  rw [none]
  dsimp only
  split
  · rename_i small
    have same := toUInt16_toUInt8 small
    cases kind <;> simp [Encoding.opcode, Encoding.operand, CallKind.forms, Opcode.instr?,
      byteAt, same]
  · have same := wordAt_wordBytes_append name (argc :: rest)
    cases kind <;> simp [Encoding.opcode, Encoding.operand, CallKind.forms, Opcode.instr?, same]
    all_goals simp [byteAt, wordBytes]

theorem instr?_int (value : Int8) (rest : List UInt8) :
    (Instr.int value).opcode.instr? ((Instr.int value).operands ++ rest) = some (.int value) := by
  cases small : Opcode.smallInt? value.toInt with
  | none => simp [Instr.opcode, Instr.operands, small, Opcode.instr?, byteAt]
  | some op =>
    have same : ∀ {n : Int}, value.toInt = n → value = Int8.ofInt n := by
      rintro n rfl
      exact (Int8.ofInt_toInt value).symm
    simp only [Instr.opcode, small, getD_some]
    unfold Opcode.smallInt? at small
    split at small
    all_goals rename_i isSmall
    all_goals first
      | (cases small; rw [same isSmall]; rfl)
      | cases small

/-! ## Instructions -/

/-- **An instruction is read back from its bytes**, whatever stands behind them. -/
theorem Instr.instr?_operands (i : Instr) (fits : i.Fits) (rest : List UInt8) :
    i.opcode.instr? (i.operands ++ rest) = some i := by
  cases i with
  | plain op =>
    cases op with
    | unary operator => cases operator <;> rfl
    | binary operator => cases operator <;> rfl
    | _ => rfl
  | int value => exact instr?_int value rest
  | indexed family index => exact instr?_indexed family index rest
  | send kind name argc => exact instr?_send kind name argc rest
  | call argc => rfl
  | instantiate argc => rfl
  | defNamespace kind => cases kind <;> rfl
  | slice front back => rfl
  | jump kind distance =>
    have same := wordAt_wordBytes_append distance rest
    cases kind <;> simp [Instr.opcode, Instr.operands, JumpKind.opcode, Opcode.instr?, same]
  | closure function captures =>
    have word : wordAt (wordBytes function ++ Place.encodeAll captures ++ rest) 0 = function := by
      rw [List.append_assoc]
      exact wordAt_wordBytes_append function _
    have places : (wordBytes function ++ Place.encodeAll captures ++ rest).drop 2 =
        Place.encodeAll captures ++ rest := by
      simp [wordBytes]
    simp only [Instr.opcode, Instr.operands, Opcode.instr?, word, places]
    rw [readCaptures_encodeAll fits]

theorem instr?_foundIn {instr : Instr} (fits : instr.Fits) (offset : Nat) (after : List Instr) :
    Found.instr? ⟨offset, instr.opcode, bytesOf (instr :: after)⟩ = some instr := by
  have tail : (bytesOf (instr :: after)).drop 1 = instr.operands ++ bytesOf after := by
    rw [bytesOf, flatMap_cons, Instr.bytes_eq]
    rfl
  rw [Found.instr?, tail]
  exact instr.instr?_operands fits _

theorem filterMap_instr?_foundIn {instrs : List Instr} (fit : ∀ i ∈ instrs, i.Fits)
    (offset : Nat) : (foundIn offset instrs).filterMap Found.instr? = instrs := by
  induction instrs generalizing offset with
  | nil => rfl
  | cons i rest ih =>
    rw [foundIn, filterMap_cons, instr?_foundIn (fit i mem_cons_self),
      ih fun j member => fit j (mem_cons_of_mem i member)]

/-! ## Code -/

/-- Some code is the bytes of some instructions, each of which can be written in full. -/
structure WrittenAs (code : Array UInt8) (instrs : List Instr) : Prop where
  bytes : code.toList = bytesOf instrs
  fit : ∀ i ∈ instrs, i.Fits

theorem find?_foundIn {offset : Nat} {before after : List Instr} {instr : Instr} :
    (foundIn offset (before ++ instr :: after)).find? (fun i =>
      (i.offset : Int) = offset + codeSize before) =
        some ⟨offset + codeSize before, instr.opcode, bytesOf (instr :: after)⟩ := by
  induction before generalizing offset with
  | nil => simp [foundIn]
  | cons first before ih =>
    rw [cons_append, foundIn, codeSize_cons, List.find?_cons_of_neg]
    · have step : (offset : Int) + ((first.size + codeSize before : Nat) : Int) =
          ((offset + first.size : Nat) : Int) + codeSize before := by
        omega
      rw [step, ih, Nat.add_assoc]
    · have := first.size_pos
      simp only [decide_eq_true_eq]
      omega

namespace WrittenAs

variable {code : Array UInt8} {instrs before after : List Instr} {instr : Instr}

theorem walk (written : WrittenAs code instrs) :
    (walkCode code.toList).instructions.toList = foundIn 0 instrs := by
  rw [walkCode, written.bytes, walkFrom_bytes]
  simp

theorem reads {f : CompiledFunction} (written : WrittenAs f.code instrs) : f.reads = instrs := by
  rw [CompiledFunction.reads, CompiledFunction.instructions, written.walk,
    filterMap_instr?_foundIn written.fit]

theorem size (written : WrittenAs code instrs) : code.size = codeSize instrs := by
  rw [← Array.length_toList, written.bytes, length_bytesOf]

theorem instrAt? (written : WrittenAs code (before ++ instr :: after)) :
    instrAt? code (codeSize before) = some instr := by
  have found := @find?_foundIn 0 before after instr
  rw [Int.natCast_zero, Int.zero_add] at found
  have fits : instr.Fits := written.fit instr (by simp)
  rw [StackCode.instrAt?, written.walk, found, bind_some, instr?_foundIn fits]

theorem of_instrAt? (written : WrittenAs code instrs) {place : Int}
    (found : StackCode.instrAt? code place = some instr) :
    ∃ before after, instrs = before ++ instr :: after ∧ place = codeSize before := by
  rw [StackCode.instrAt?, written.walk, bind_eq_some_iff] at found
  obtain ⟨i, isFound, reads⟩ := found
  obtain ⟨before, other, after, rfl, rfl⟩ := mem_foundIn.1 (mem_of_find?_eq_some isFound)
  rw [instr?_foundIn (written.fit other (by simp))] at reads
  cases reads
  refine ⟨before, after, rfl, ?_⟩
  have there := List.find?_some isFound
  simp only [decide_eq_true_eq] at there
  omega

end WrittenAs

end StackCode
