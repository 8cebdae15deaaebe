import StackCode.Proofs.Builds

/-!
# Code that loads constants

For each step that only adds constants, the operations that its code is written for. Numbers that
do not fit are reported, so unless there is a failure an operand is the number that was asked for.
-/

namespace StackCode

/-! ## Loaded code -/

namespace Loaded

variable {values : List Value} {a b : List Op} {code code' : Code}

theorem nil : Loaded values [] #[] := fun _ _ => .nil

theorem append (first : Loaded values a code) (second : Loaded values b code') :
    Loaded values (a ++ b) (code ++ code') := by
  intro captured room
  rw [Code.instrs_append]
  exact List.rel_append (first captured room) (second captured room)

theorem one {op : Op} {i : Instr} (span : Span)
    (encoded : ∀ captured room, Encoded ⟨values, captured, room⟩ op i) :
    Loaded values [op] (Code.one span i) :=
  fun captured room => .cons (encoded captured room) .nil

theorem plain (span : Span) (op : PlainOp) : Loaded values [.plain op] (Code.plain span op) :=
  one span fun _ _ => .plain op

theorem each {W : World} (loaded : Loaded W.pool a code) :
    List.Forall₂ (Encoded W) a code.instrs :=
  loaded W.captured W.room

end Loaded

theorem Loaded.coded {W : World} {operations : List Op} {code : Code}
    (loaded : Loaded W.pool operations code) {start stop : Nat}
    (chain : Chain Op.effect start operations stop) :
    Coded W start stop (.ops operations) code :=
  .ops loaded.each chain

/-- An instance variable has a slot, or a symbol for its name. -/
def HasOperand (values : List Value) : Option Compile.IvarOperand → Prop
  | some (.slot _) => True
  | some (.name index) => ∃ name, values[index.toNat]? = some (.symbol name)
  | none => False

namespace Loads

variable {P : List Value → Prop}
variable {scheme : Scheme} {g : CompiledFunction} (site : Site)
  (operand : Option Compile.IvarOperand) (target : DefinitionTarget) (name : String) (span : Span)

/-! ## Operands -/

theorem indexed (family : Family) (index : Nat) (span : Span) :
    Loads P (Compile.indexed family index span) fun _ code =>
      ∃ i : UInt16, code = .one span (.indexed family i) ∧ i.toNat = index := by
  unfold Compile.indexed
  split
  · rename_i fits
    exact pure fun _ _ => ⟨UInt16.ofNat index, rfl, UInt16.toNat_ofNat_of_lt' fits⟩
  · exact (fail _ _).bind fun _ => pure fun _ never => never.2.elim

theorem argumentCount (count : Nat) (span : Span) :
    Loads P (Compile.argumentCount count span) fun _ argc => argc.toNat = count := by
  unfold Compile.argumentCount
  split
  · rename_i fits
    exact pure fun _ _ => UInt8.toNat_ofNat_of_lt' fits
  · exact (fail _ _).bind fun _ => pure fun _ never => never.2.elim

theorem jump (kind : JumpKind) (distance : Nat) (span failureSpan : Span) :
    Loads P (Compile.jump kind distance span failureSpan) fun _ code =>
      ∃ d : UInt16, code = .one span (.jump kind d) ∧ d.toNat = distance := by
  unfold Compile.jump
  split
  · rename_i fits
    exact pure fun _ _ => ⟨UInt16.ofNat distance, rfl, UInt16.toNat_ofNat_of_lt' fits⟩
  · exact (fail _ _).bind fun _ => pure fun _ never => never.2.elim

theorem sequence (kind : SequenceKind) (count : Nat) (span : Span) :
    LoadsAs P (Compile.indexed kind.family count span) [.sequence kind count] := by
  refine (indexed kind.family count span).imp fun values code _ made => ?_
  obtain ⟨i, rfl, counted⟩ := made
  exact .one span fun _ _ => .sequence counted

theorem map (count : Nat) (span : Span) :
    LoadsAs P (Compile.indexed .newMap count span) [.map count] := by
  refine (indexed .newMap count span).imp fun values code _ made => ?_
  obtain ⟨i, rfl, counted⟩ := made
  exact .one span fun _ _ => .map counted

/-! ## Values -/

theorem loadValue {value : Value} (noFunction : value.function? = none) (span : Span) :
    LoadsAs P (Compile.loadValue value span) [.value value] := by
  refine (addConstant span ?_).bind fun i => pure fun values given => ?_
  · rintro _ _ g rfl
    cases noFunction
  · exact .one span fun _ _ => .value noFunction given.2

theorem loadFunction (built : ∀ values, P values → Built scheme g ∧ scheme.captured = [] ∧
      ∀ h ∈ g.walk, h.Sound) :
    LoadsAs P (Compile.loadValue (.function g) span) [.function scheme] := by
  refine (addConstant span ?_).bind fun i => pure fun values given => ?_
  · rintro values given _ ⟨⟩
    exact (built values given).2.2
  · obtain ⟨isBuilt, noCapture, -⟩ := built values given.1
    exact .one span fun _ _ => .function isBuilt noCapture given.2

theorem loadSymbol :
    LoadsAs P (Compile.loadSymbol name span) [.value (.symbol name)] :=
  loadValue rfl span

theorem addSymbol :
    Loads P (Compile.addConstant (.symbol name) span) fun values index =>
      values[index.toNat]? = some (.symbol name) :=
  addConstant span nofun

theorem getConst (fullName : String) (span : Span) :
    LoadsAs P (Compile.getConst fullName span) [.constant (some fullName)] := by
  refine (addSymbol fullName span).bind fun i => pure fun values given => ?_
  refine .one span fun _ _ => .constant (fun n same => ?_) given.2
  exact (Option.some.inj same).symm

theorem loadInt (value : Int) (span : Span) :
    LoadsAs P (Compile.loadInt value span) (intOps value) := by
  unfold Compile.loadInt intOps
  split
  · exact pure fun _ _ => .one span fun _ _ => .int _
  · exact loadValue rfl span

theorem loadLiteral (value : Literal) (span : Span) :
    LoadsAs P (Compile.loadLiteral value span) value.ops := by
  cases value with
  | nil => exact pure fun _ _ => .plain span _
  | bool value => cases value <;> exact pure fun _ _ => .plain span _
  | int n => exact loadInt _ span
  | float x => exact loadValue rfl span
  | string s => exact loadValue rfl span
  | symbol s => exact loadSymbol _ span

theorem send (kind : CallKind) (name : String) (count : Nat) (span : Span) :
    LoadsAs P (Compile.send kind name count span) [.send kind name count] := by
  refine (addSymbol name span).bind fun i => (argumentCount count span).bind fun argc =>
    pure fun values given => ?_
  exact .one span fun _ _ => .send given.1.2 given.2

theorem getPath (path : Path) (span : Span) :
    LoadsAs P (Compile.getPath site path span) [.constant none] := by
  refine get_bind fun s => ?_
  split
  · refine (addSymbol _ span).bind fun i => pure fun values given => ?_
    exact .one span fun _ _ => .constant nofun given.2
  · exact (fail _ span).bind fun _ => pure fun _ never => never.2.elim

/-! ## Members -/

theorem loadTarget :
    LoadsAs P (Compile.loadTarget target span) target.ops := by
  refine (getConst target.fullName span).bind fun owner => pure fun values given => ?_
  unfold DefinitionTarget.ops
  split
  · exact given.2.append (.plain span _)
  · exact given.2

theorem defineMethod
    (built : ∀ values, P values → Built scheme g ∧ scheme.captured = [] ∧ ∀ h ∈ g.walk, h.Sound) :
    LoadsAs P (do
      let owner ← Compile.loadTarget target span
      let function ← Compile.loadValue (.function g) span
      let name ← Compile.loadSymbol name span
      return owner ++ function ++ name ++ Code.plain span .defMethod)
        (target.methodOps name scheme) := by
  refine (loadTarget target span).bind fun owner => ?_
  refine (loadFunction span fun values given => built values given.1).bind fun function => ?_
  refine (loadSymbol name span).bind fun name => pure fun values given => ?_
  have whole := ((given.1.1.2.append given.1.2).append given.2).append (.plain span .defMethod)
  simpa [DefinitionTarget.methodOps] using whole

theorem defineNamed (op : PlainOp) :
    LoadsAs P (do
      let owner ← Compile.loadTarget target span
      let name ← Compile.loadSymbol name span
      return owner ++ name ++ Code.plain span op) (target.accessorOps op name) := by
  refine (loadTarget target span).bind fun owner => (loadSymbol name span).bind fun name =>
    pure fun values given => ?_
  simpa [DefinitionTarget.accessorOps] using (given.1.2.append given.2).append (.plain span op)

theorem defineAttribute (kind : AttributeKind) (name : String) (span : Span) :
    LoadsAs P (Compile.defineAttribute target kind name span) (target.attributeOps kind name) := by
  cases kind with
  | getter => exact defineNamed target name span .defGetter
  | setter => exact defineNamed target name span .defSetter
  | accessor =>
    refine (defineNamed target name span .defGetter).bind fun getter => ?_
    exact (defineNamed target name span .defSetter).bind fun setter => pure fun values given =>
      given.1.2.append given.2

theorem defineAlias (entry : Alias) (span : Span) :
    LoadsAs P (Compile.defineAlias target entry span) (target.aliasOps entry) := by
  refine (loadTarget target span).bind fun owner => (loadSymbol _ span).bind fun newName => ?_
  refine (loadSymbol _ span).bind fun oldName => pure fun values given => ?_
  have whole := ((given.1.1.2.append given.1.2).append given.2).append
    (.plain span .defMethodAlias)
  simpa [DefinitionTarget.aliasOps] using whole

theorem fold {γ : Type} {step : γ → Compile Code} {operations : γ → List Op}
    (each : ∀ item P, LoadsAs P (step item) (operations item))
    (items : List γ) (code : Code) (before : List Op) :
    LoadsAs (fun values => P values ∧ Loaded values before code)
      (items.foldlM (fun code item => return code ++ (← step item)) code)
        (before ++ items.flatMap operations) := by
  induction items generalizing code before with
  | nil => exact pure fun values given => by simpa using given.2
  | cons item rest ih =>
    rw [List.foldlM_cons]
    have first : Loads (fun values => P values ∧ Loaded values before code)
        (do return code ++ (← step item)) fun values code =>
          P values ∧ Loaded values (before ++ operations item) code :=
      (each item _).bind fun more => pure fun values given =>
        ⟨given.1.1, given.1.2.append given.2⟩
    refine first.bind fun code => ((ih code _).pre fun values given => given.2).imp
      fun values code _ loaded => ?_
    simpa using loaded

/-! ## Instance variables -/

theorem ivarOperand :
    Loads P (Compile.ivarOperand site name span) fun values operand =>
      HasOperand values operand := by
  refine get_bind fun s => ?_
  cases s.current.ivars with
  | fixed fullName singleton =>
    dsimp only
    split
    · exact pure fun _ _ => trivial
    · exact (fail _ span).bind fun _ => pure fun _ never => never.2.elim
  | byName fullName =>
    dsimp only
    split
    · exact (addSymbol name span).bind fun i => pure fun _ given => ⟨name, given.2⟩
    · exact (fail _ span).bind fun _ => pure fun _ never => never.2.elim
  | forbidden => exact (fail _ span).bind fun _ => pure fun _ never => never.2.elim

theorem getIvarOperand :
    LoadsAs (fun values => P values ∧ HasOperand values operand)
      (Compile.getIvarOperand operand span) [.getIvar] := by
  match operand with
  | some (.slot index) =>
    refine (indexed .getIvar index span).imp fun values code _ made => ?_
    obtain ⟨i, rfl, -⟩ := made
    exact .one span fun _ _ => .getIvar
  | some (.name index) =>
    refine pure fun values given => .one span fun _ _ => ?_
    obtain ⟨name, found⟩ := given.2
    exact .getIvarName found
  | none => exact pure fun _ never => never.2.elim

theorem setIvarOperand :
    LoadsAs (fun values => P values ∧ HasOperand values operand)
      (Compile.setIvarOperand operand span) [.setIvar] := by
  match operand with
  | some (.slot index) =>
    refine (indexed .setIvar index span).imp fun values code _ made => ?_
    obtain ⟨i, rfl, -⟩ := made
    exact .one span fun _ _ => .setIvar
  | some (.name index) =>
    refine pure fun values given => .one span fun _ _ => ?_
    obtain ⟨name, found⟩ := given.2
    exact .setIvarName found
  | none => exact pure fun _ never => never.2.elim

/-! ## Scopes -/

theorem closeSlots (slots : List Nat) :
    Loads P (Compile.closeSlots span slots) fun _ code =>
      List.Forall₂ (fun slot i => ∃ w : UInt16, w.toNat = slot ∧ i = .indexed .closeUpvalue w) slots
        code.instrs := by
  let Closes (slot : Nat) (i : Instr) : Prop :=
    ∃ w : UInt16, w.toNat = slot ∧ i = .indexed .closeUpvalue w
  have each : ∀ (slots closed : List Nat) (code : Code) {P : List Value → Prop},
      Loads (fun values => P values ∧ List.Forall₂ Closes closed code.instrs)
        (slots.foldlM (fun code slot =>
          return code ++ (← Compile.indexed .closeUpvalue slot span)) code) fun _ code =>
          List.Forall₂ Closes (closed ++ slots) code.instrs := by
    intro slots
    induction slots with
    | nil => exact fun closed code _ => pure fun values given => by simpa using given.2
    | cons slot rest ih =>
      intro closed code P
      rw [List.foldlM_cons]
      have first : Loads (fun values => P values ∧ List.Forall₂ Closes closed code.instrs)
          (do return code ++ (← Compile.indexed .closeUpvalue slot span)) fun values code =>
            P values ∧ List.Forall₂ Closes (closed ++ [slot]) code.instrs := by
        refine (indexed .closeUpvalue slot span).bind fun more => pure fun values given => ?_
        obtain ⟨⟨isP, before⟩, i, rfl, isSlot⟩ := given
        rw [Code.instrs_append]
        exact ⟨isP, List.rel_append before (.cons ⟨i, isSlot, rfl⟩ .nil)⟩
      refine first.bind fun code => ((ih _ code).pre fun values given => given.2).imp
        fun _ code _ closes => ?_
      simpa using closes
  exact (each slots [] #[]).pre fun values given => ⟨given, .nil⟩

end Loads

end StackCode
