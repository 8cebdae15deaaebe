import StackCode.Proofs.Regions
import StackCode.Proofs.UnitPieces

/-!
# Operands

What an instruction refers to is there and is of the right kind, in every function that a unit is
compiled to (`compileAgainst_operandsRight`). This is read off the world in which an instruction
writes an operation, which is the finished function itself (`Encoded.operandsRight`). The jumps go
to instructions, so the code as a whole is well formed (`compileAgainst_wellFormed`).
-/

namespace StackCode

variable {f : CompiledFunction} {scheme : Scheme}

namespace CompiledFunction

/-- A slot for a variable. The first one is that of the receiver. -/
def HasSlot (f : CompiledFunction) (slot : Nat) : Prop := 1 ≤ slot ∧ slot ≤ f.frameSize

/-- An index of the pool is that of a name. -/
def HasName (f : CompiledFunction) (index : UInt16) : Prop :=
  ∃ name, f.constants[index.toNat]? = some (.symbol name)

/-- What a closure in a function can capture. -/
def HasPlace (f : CompiledFunction) : Place → Prop
  | .local slot => f.HasSlot slot
  | .upvalue index => index < f.upvalues

end CompiledFunction

/-- What an instruction of a function refers to is there, and is of the right kind. What is loaded
without its captured variables has none. -/
def Instr.OperandsRight (f : CompiledFunction) : Instr → Prop
  | .indexed .loadValue i =>
    ∃ value, f.constants[i.toNat]? = some value ∧ ∀ g, value = .function g → g.upvalues = 0
  | .indexed .getConst i => f.HasName i
  | .indexed .getIvarName i => f.HasName i
  | .indexed .setIvarName i => f.HasName i
  | .send _ i _ => f.HasName i
  | .closure i places =>
    ∃ g, f.constants[i.toNat]? = some (.function g) ∧ places.length = g.upvalues ∧
      ∀ place ∈ places, f.HasPlace place
  | .indexed .getUpvalue i => i.toNat < f.upvalues
  | .indexed .setUpvalue i => i.toNat < f.upvalues
  | .indexed .getLocal i => f.HasSlot i.toNat
  | .indexed .setLocal i => f.HasSlot i.toNat
  | .indexed .closeUpvalue i => f.HasSlot i.toNat
  | _ => True

/-- All that the instructions of a function refer to is there, and is of the right kind. -/
structure CompiledFunction.OperandsRight (f : CompiledFunction) : Prop where
  pool : PoolRight f.constants
  /-- No byte of the code is outside the instructions that are read from it. -/
  whole : f.code.toList = bytesOf f.reads
  each : ∀ i ∈ f.reads, i.OperandsRight f
  /-- Room for variables is made at most once. -/
  roomOnce : (f.reads.filterMap Instr.room?).length ≤ 1
  /-- Only closures capture variables. -/
  closures : 0 < f.upvalues → f.name = "<closure>"

theorem Built.upvalues (built : Built scheme f) :
    f.upvalues = scheme.captured.length := by
  cases built with
  | intro upvalues _ _ => exact upvalues

section Finished

variable {f : CompiledFunction} {captured live : List Local}

theorem World.Denotes.hasPlace {place : Place} {l : Local} (upvalues : f.upvalues = captured.length)
    (denotes : (f.world captured).Denotes live place l) : f.HasPlace place := by
  cases place with
  | «local» slot => exact denotes.2
  | upvalue index =>
    show index < f.upvalues
    rw [upvalues]
    exact (List.getElem?_eq_some_iff.1 denotes).1

/-- **An instruction that writes an operation has operands that are there.** -/
theorem Encoded.operandsRight {op : Op} {i : Instr} (upvalues : f.upvalues = captured.length)
    (encoded : Encoded (f.world captured) op i) : i.OperandsRight f := by
  cases encoded with
  | @value _ value index noFunction found =>
    refine ⟨value, found, ?_⟩
    rintro g rfl
    cases noFunction
  | @function _ scheme g index built noCapture found =>
    refine ⟨.function g, found, ?_⟩
    rintro _ ⟨⟩
    rw [built.upvalues, noCapture]
    rfl
  | @closure _ _ scheme g index places built found fit captures =>
    refine ⟨g, found, ?_, fun place member => ?_⟩
    · rw [captures.length_eq, built.upvalues]
    · obtain ⟨l, -, denotes⟩ := exists_of_forall₂ captures.flip member
      exact World.Denotes.hasPlace upvalues denotes
  | constant known found => exact ⟨_, found⟩
  | getIvarName found => exact ⟨_, found⟩
  | setIvarName found => exact ⟨_, found⟩
  | send found counted => exact ⟨_, found⟩
  | getLocal denotes => exact denotes.hasPlace upvalues
  | getUpvalue denotes => exact denotes.hasPlace upvalues
  | setLocal denotes => exact denotes.hasPlace upvalues
  | setUpvalue denotes => exact denotes.hasPlace upvalues
  | close denotes => exact denotes.hasPlace upvalues
  | @sequence _ kind _ _ _ => cases kind <;> trivial
  | _ => trivial

end Finished

/-- **A function that has the code of a scheme has operands that are there.** -/
theorem Assembled.operandsRight {room instrs : List Instr}
    (assembled : Assembled scheme room instrs f) : f.OperandsRight where
  pool := assembled.pool
  whole := by rw [assembled.written.reads, assembled.written.bytes]
  each i member := by
    rw [assembled.written.reads, List.mem_append] at member
    rcases member with inRoom | inside
    · rcases assembled.isRoom with rfl | ⟨index, rfl⟩
      · cases inRoom
      · rw [List.mem_singleton.1 inRoom]
        trivial
    · rcases (assembled.codes 0).jump_or_encoded inside with ⟨_, _, rfl⟩ | ⟨_, -, encoded⟩
      · trivial
      · exact encoded.operandsRight assembled.upvalues
  roomOnce := by
    have none : instrs.filterMap Instr.room? = [] :=
      List.filterMap_eq_nil_iff.2 fun i member => (assembled.codes 0).room?_eq_none member
    rw [assembled.written.reads, List.filterMap_append, none, List.append_nil]
    rcases assembled.isRoom with rfl | ⟨index, rfl⟩
    · exact Nat.zero_le _
    · exact Nat.le_refl _
  closures := assembled.named

/-- **Operands are in range and of the right kind** in every function that a unit is compiled to.
The function of the unit itself captures nothing. -/
theorem compileAgainst_operandsRight {options : Options} {base current : Registry}
    {program : Program} {f : CompiledFunction}
    (compiled : (compileAgainst options base current program).1.function = some f) :
    f.upvalues = 0 ∧ ∀ g ∈ f.walk, g.OperandsRight := by
  obtain ⟨built, sound⟩ := compileAgainst_built compiled
  refine ⟨built.upvalues, fun g member => ?_⟩
  obtain ⟨scheme, room, instrs, assembled⟩ := sound g member
  exact assembled.operandsRight

theorem compileAgainst_operandsRight_counter :
    ∃ f, (compileAgainst (.forFile "counter") .prelude .prelude counterUnit).1.function = some f ∧
      f.walk.map CompiledFunction.upvalues = [0, 0, 0, 0, 0, 1] ∧ f.upvalues = 0 ∧
      ∀ g ∈ f.walk, g.OperandsRight := by
  have captures : (compileAgainst (.forFile "counter") .prelude .prelude counterUnit).1.function.map
      (·.walk.map CompiledFunction.upvalues) = some [0, 0, 0, 0, 0, 1] := by
    decide +kernel
  obtain ⟨f, compiled, each⟩ := Option.map_eq_some_iff.1 captures
  exact ⟨f, compiled, each, compileAgainst_operandsRight compiled⟩

/-! ## Well-formed code -/

theorem Assembled.lands {room instrs : List Instr}
    (assembled : Assembled scheme room instrs f) {t : Int} (goes : t ∈ targets 0 (room ++ instrs)) :
    ∃ before i after, room ++ instrs = before ++ i :: after ∧ t = codeSize before := by
  have noJumps (op : Op) (i : Instr) (encoded : Encoded (f.world scheme.captured) op i) :
      i.isJump = false := (Encoded.sameEffect _ op i encoded).1
  have noRoom : targets 0 room = [] := by
    rcases assembled.isRoom with rfl | ⟨i, rfl⟩ <;> rfl
  rw [targets_append, noRoom, List.nil_append] at goes
  -- A check that left the code would go to different places behind it.
  have lands : t ∈ cuts (0 + codeSize room) instrs ∧ t < 0 + codeSize room + codeSize instrs := by
    rcases (assembled.codes 0).targets_land noJumps goes with ⟨cut, early⟩ | ⟨atEnd, -⟩
    · exact ⟨cut, early assembled.returns⟩
    · rcases (assembled.codes 1).targets_land noJumps goes with ⟨cut, early⟩ | ⟨behind, -⟩
      · exact ⟨cut, early assembled.returns⟩
      · omega
  rcases mem_cuts_cases lands.1 with ⟨before, i, after, rfl, rfl⟩ | rfl
  · exact ⟨room ++ before, i, after, by simp, by simp⟩
  · omega

theorem Matches.wellFormed {unit : UnitInfo} {source : Source}
    (matched : Matches unit source f) (sound : f.Sound) : f.WellFormed := by
  obtain ⟨code, body, -, -, code_eq, lines_eq, returns, -, -⟩ := matched
  obtain ⟨scheme, room, instrs, assembled⟩ := sound
  have walk : walkCode f.code.toList = ⟨(foundIn 0 code.instrs).toArray, none⟩ := by
    rw [code_eq, code.walkCode_bytes]
  have found : f.instructions = foundIn 0 code.instrs := by rw [CompiledFunction.instructions, walk]
  refine ⟨by rw [walk], ?_, ?_, ?_, ?_, ?_⟩
  · rw [found]
    intro i member
    obtain ⟨before, instr, after, -, rfl⟩ := mem_foundIn.1 member
    rw [size_found, length_bytesOf, codeSize_cons]
    exact ⟨instr.size_pos, Nat.le_add_right _ _⟩
  · rw [found, sum_size_foundIn, code_eq, ← Array.length_toList, code.toList_bytes, length_bytesOf]
  · rw [found, length_foundIn, lines_eq, LineTable.total_ofCode]
  · rw [found, returns, getLast?_foundIn]
    rfl
  · rw [CompiledFunction.instructions, assembled.written.walk]
    exact fun i member jumps => exists_destination (fun t goes => assembled.lands goes) member jumps

/-- **Whatever a unit is compiled to is well formed**, against any registries and with any
options. -/
theorem compileAgainst_wellFormed {options : Options} {base current : Registry} {program : Program}
    {f : CompiledFunction}
    (compiled : (compileAgainst options base current program).1.function = some f) :
    ∀ g ∈ f.walk, g.WellFormed := by
  intro g nested
  obtain ⟨⟨clean, -, -, -⟩, rfl⟩ := compileAgainst_published compiled
  obtain ⟨hoisted, -, matched⟩ := compileUnit_matches clean
  obtain ⟨source, -, matches_⟩ := exists_of_forall₂ matched.walk nested
  exact matches_.wellFormed ((compileUnit_assembled clean).2 g nested)

theorem compileAgainst_wellFormed_counter :
    ∃ f, (compileAgainst (.forFile "counter") .prelude .prelude counterUnit).1.function = some f ∧
      f.walk.length = 6 ∧ ∀ g ∈ f.walk, g.WellFormed := by
  have size : (compileAgainst (.forFile "counter") .prelude .prelude counterUnit).1.function.map
      (·.walk.length) = some 6 := by
    decide +kernel
  obtain ⟨f, compiled, length⟩ := Option.map_eq_some_iff.1 size
  exact ⟨f, compiled, length, compileAgainst_wellFormed compiled⟩

end StackCode
