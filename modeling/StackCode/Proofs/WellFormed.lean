import StackCode.Function.Listing
import StackCode.Proofs.Matching

/-!
# Well-formed code

The code of a function is well formed if it can be read back: a walk through it reads all bytes and
finds complete instructions only, as many as the line table counts; the last one is a return, and
every jump goes to one of them. A walk finds the instructions that were written
(`Code.walkCode_bytes`).
-/

namespace StackCode

namespace Found

/-- The size of an instruction. -/
def size (i : Found) : Nat := (instructionSize? i.code).getD 0

/-- Where a jump goes. A jump back subtracts from where it ends, and may ask for a place before
the start. -/
def destination (i : Found) : Int :=
  if i.opcode = .loop then i.offset + i.size - i.firstWord else i.offset + i.size + i.firstWord

end Found

namespace CompiledFunction

/-- The instructions of a function, as a walk finds them. -/
def instructions (f : CompiledFunction) : List Found := (walkCode f.code.toList).instructions.toList

/-- The code of a function is well formed. -/
structure WellFormed (f : CompiledFunction) : Prop where
  /-- The walk does not stop before the end. -/
  reads : (walkCode f.code.toList).stopped = none
  /-- No instruction is cut short. -/
  complete : ∀ i ∈ f.instructions, 0 < i.size ∧ i.size ≤ i.code.length
  /-- The instructions are all there is. -/
  covers : (f.instructions.map Found.size).sum = f.code.size
  counted : f.instructions.length = f.lines.total
  returns : f.instructions.getLast?.map Found.opcode = some .ret
  lands : ∀ i ∈ f.instructions, i.opcode.isJump = true →
    ∃ j ∈ f.instructions, (j.offset : Int) = i.destination

end CompiledFunction

/-! ## What a walk finds -/

theorem length_bytesOf (instrs : List Instr) : (bytesOf instrs).length = codeSize instrs := by
  induction instrs with
  | nil => rfl
  | cons i rest ih => rw [bytesOf, List.flatMap_cons, List.length_append, codeSize_cons, ← ih]; rfl

theorem mem_foundIn {offset : Nat} {instrs : List Instr} {i : Found} :
    i ∈ foundIn offset instrs ↔ ∃ before instr after, instrs = before ++ instr :: after ∧
      i = ⟨offset + codeSize before, instr.opcode, bytesOf (instr :: after)⟩ := by
  induction instrs generalizing offset with
  | nil => simp [foundIn]
  | cons first rest ih =>
    rw [foundIn, List.mem_cons, ih]
    constructor
    · rintro (rfl | ⟨before, instr, after, rfl, rfl⟩)
      · exact ⟨[], first, rest, rfl, rfl⟩
      · exact ⟨first :: before, instr, after, rfl, by rw [codeSize_cons, Nat.add_assoc]⟩
    · rintro ⟨before, instr, after, same, rfl⟩
      cases before with
      | nil =>
        cases same
        exact .inl rfl
      | cons head before =>
        cases same
        exact .inr ⟨before, instr, after, rfl, by rw [codeSize_cons, Nat.add_assoc]⟩

theorem size_found (offset : Nat) (opcode : Opcode) (instr : Instr) (after : List Instr) :
    Found.size ⟨offset, opcode, bytesOf (instr :: after)⟩ = instr.size := by
  rw [Found.size, bytesOf, List.flatMap_cons, instr.instructionSize?_bytes]
  rfl

theorem sum_size_foundIn (offset : Nat) (instrs : List Instr) :
    ((foundIn offset instrs).map Found.size).sum = codeSize instrs := by
  induction instrs generalizing offset with
  | nil => rfl
  | cons i rest ih => rw [foundIn, List.map_cons, List.sum_cons, ih, size_found, codeSize_cons]

theorem getLast?_foundIn (offset : Nat) (instrs : List Instr) (last : Instr) :
    (foundIn offset (instrs ++ [last])).getLast?.map Found.opcode = some last.opcode := by
  induction instrs generalizing offset with
  | nil => rfl
  | cons first rest ih =>
    have more := ih (offset + first.size)
    rw [List.cons_append, foundIn, List.getLast?_cons]
    cases others : (foundIn (offset + first.size) (rest ++ [last])).getLast? with
    | none => simp [others] at more
    | some i => simpa [others] using more

/-! ## Jumps -/

theorem Instr.eq_jump_of_isJump {i : Instr} (jumps : i.opcode.isJump = true) :
    ∃ kind distance, i = .jump kind distance := by
  -- An index has a few operations to be written with, so what holds of each holds of the one taken.
  have ofForms (forms : Forms) (index : UInt16)
    (jumps : (forms.encoding index).opcode.isJump = true) :
      ∃ op ∈ forms.short :: forms.long :: forms.dedicated, op.isJump = true :=
    ⟨_, forms.opcode_encoding_mem index, jumps⟩
  cases i with
  | jump kind distance => exact ⟨kind, distance, rfl⟩
  | plain op =>
    cases op with
    | unary operator => cases operator <;> cases jumps
    | binary operator => cases operator <;> cases jumps
    | _ => cases jumps
  | int value =>
    rw [opcode] at jumps
    generalize small : Opcode.smallInt? value.toInt = op at jumps
    unfold Opcode.smallInt? at small
    split at small <;> subst small <;> cases jumps
  | send kind name => exact absurd (ofForms kind.forms name jumps) (by cases kind <;> decide)
  | indexed family index =>
    exact absurd (ofForms family.forms index jumps) (by cases family <;> decide)
  | _ => cases jumps

theorem target?_eq_destination (offset : Nat) (kind : JumpKind) (distance : UInt16)
    (after : List Instr) :
    (Instr.jump kind distance).target? offset =
      some (Found.destination ⟨offset, (Instr.jump kind distance).opcode,
        bytesOf (.jump kind distance :: after)⟩) := by
  have word : Found.firstWord ⟨offset, (Instr.jump kind distance).opcode,
      bytesOf (.jump kind distance :: after)⟩ = distance.toNat := by
    rw [Found.firstWord, bytesOf, List.flatMap_cons]
    exact congrArg UInt16.toNat (wordAt_wordBytes kind.opcode.byte distance _)
  have size : (Instr.jump kind distance).size = 3 := rfl
  rw [Found.destination, word, size_found, size]
  cases kind <;> rfl

theorem exists_destination {instrs : List Instr}
    (lands : ∀ t ∈ targets 0 instrs, ∃ before i after, instrs = before ++ i :: after ∧
      t = codeSize before) {i : Found} (found : i ∈ foundIn 0 instrs)
    (jumps : i.opcode.isJump = true) :
    ∃ j ∈ foundIn 0 instrs, (j.offset : Int) = i.destination := by
  obtain ⟨before, instr, after, rfl, rfl⟩ := mem_foundIn.1 found
  obtain ⟨kind, distance, rfl⟩ := Instr.eq_jump_of_isJump jumps
  have goes := target?_eq_destination (0 + codeSize before) kind distance after
  have target : Found.destination ⟨0 + codeSize before, (Instr.jump kind distance).opcode,
      bytesOf (.jump kind distance :: after)⟩ ∈
        targets 0 (before ++ .jump kind distance :: after) := by
    rw [targets_append, targets, ← Int.natCast_zero, ← Int.natCast_add, goes]
    simp
  obtain ⟨before', j, after', whole, there⟩ := lands _ target
  exact ⟨_, mem_foundIn.2 ⟨before', j, after', whole, rfl⟩, by rw [there, Nat.zero_add]⟩

/-- A class with a method that counts up to a limit, with a default value, a loop, a branch and
a closure. -/
def counterUnit : Program :=
  let at_ := Span.zero
  let count := Expr.ivar at_ "count"
  .ofStatements [.namespace at_ .class ⟨["Counter"], false⟩ none [
    .ivar at_ "count" none,
    .method at_ "run" [⟨"limit", some (.literal at_ (.int 300)), none, at_⟩] [
      .loop at_ (.binary at_ .less count (.local at_ "limit")) [
        .expression at_ (.assign at_ (.ivar "count") (some .add) (.literal at_ (.int 1)))],
      .expression at_ (.closure at_ [] [
        .expression at_ (.conditional at_ (.logical at_ .and count (.local at_ "limit"))
          [.expression at_ count] none)])]]]

end StackCode
