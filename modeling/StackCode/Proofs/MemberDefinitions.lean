import StackCode.Proofs.NamespaceDefinitions

/-!
# What the definitions of members do

The members of a unit are defined by a function of its own, which the unit loads as a constant and
runs before its statements. As its code is read back, it has one group of instructions for each
member of the text, in the order of the text, and each group begins with what the member is defined
on (`compileAgainst_methodDefinitions`).
-/

namespace StackCode

/-- The function that defines the members of a unit. -/
def CompiledFunction.methodDefinitions? (f : CompiledFunction) : Option CompiledFunction :=
  (f.constants.filterMap Value.function?).find? (·.name = "<methodDefinitions>")

/-- As its code is read back, the function that defines the members of a unit has the definitions of
all members of the text, in their order, and then returns nil. There is none if there are no
members. -/
def CompiledFunction.DefinesMembers (f : CompiledFunction) (unit : UnitInfo) (p : Program) : Prop :=
  f.methodDefinitions? = none ∧ p.members unit = [] ∨
    ∃ g instrs, f.methodDefinitions? = some g ∧
      g.reads = instrs ++ [.plain .pushNil, .plain .ret] ∧
      DefinedBy unit g.constants (p.members unit) instrs

theorem reads_membersFunction {unit : UnitInfo} (span : Span) {members : MemberDefinitions}
    {constants : List Value} {definitions : List Definition}
    (defined : DefinedBy unit constants definitions members.code.instrs) :
    (membersFunction unit span members).reads =
      members.code.instrs ++ [.plain .pushNil, .plain .ret] := by
  let code := members.code ++ Code.plain span.ending .pushNil ++ Code.plain span.ending .ret
  have instrs : code.instrs = members.code.instrs ++ [.plain .pushNil, .plain .ret] := by
    simp [code]
  have bytes : (membersFunction unit span members).code = code.bytes := rfl
  rw [← instrs]
  refine WrittenAs.reads ⟨by rw [bytes, code.toList_bytes], ?_⟩
  rw [instrs, List.forall_mem_append]
  exact ⟨defined.forall_mem (fun _ => trivial) (fun _ => trivial) fun _ => trivial,
    by simp [Instr.Fits]⟩

theorem compileUnit_methodDefinitions {o : Options} {registry : Registry} {p : Program}
    (clean : ¬Failed (compileUnit o registry p).issues) :
    (compileUnit o registry p).function.methodDefinitions?.toList =
      (p.unitInfo o registry).definingMembers p.span
        (p.compiledBody o registry).2.members := by
  obtain ⟨bodies, namespaces, ivars, functions, -, -, isBody, isNamespaces, isIvars⟩ :=
    compileUnit_functions clean
  have early : ∀ g ∈ bodies ++ (namespaces ++ ivars), g.name ≠ "<methodDefinitions>" := by
    simp only [List.forall_mem_append]
    refine ⟨fun g member => (isBody g member).ne (by decide) (by decide), fun g member => ?_,
      fun g member => ?_⟩
    · rw [isNamespaces g member]
      decide
    · rw [isIvars g member]
      decide
  have isOwn (g : CompiledFunction) :=
    @UnitInfo.name_definingMembers g (p.unitInfo o registry)
    p.span (p.compiledBody o registry).2.members
  have few : ((p.unitInfo o registry).definingMembers p.span
      (p.compiledBody o registry).2.members).length ≤ 1 := by
    unfold UnitInfo.definingMembers
    split <;> simp
  generalize UnitInfo.definingMembers _ _ _ = own at functions isOwn few ⊢
  have inOrder : bodies ++ (namespaces ++ (ivars ++ own)) =
      bodies ++ (namespaces ++ ivars) ++ (own ++ []) := by
    simp
  rw [CompiledFunction.methodDefinitions?, functions, inOrder,
    toList_find?_name early isOwn (by simp) few]

/-- **Every member is defined once, in order, on the right target.** Which target that is stands in
a table, by the construct that the member is in (`Context.memberTarget?`). -/
theorem compileAgainst_methodDefinitions (o : Options) (base current : Registry)
    (p : Program) {f : CompiledFunction}
    (compiled : (compileAgainst o base current p).1.function = some f) :
    f.DefinesMembers (p.unitInfo o base) p := by
  obtain ⟨⟨clean, -, -, -⟩, rfl⟩ := compileAgainst_published compiled
  have cleanBody : ¬Failed (p.compiledBody o base).2.issues := fun failed =>
    clean (by
      rw [compileUnit_issues]
      exact compiledPrologue_failed p o base failed)
  have defined := compiledBody_members p o base cleanBody
  have found := compileUnit_methodDefinitions clean
  unfold UnitInfo.definingMembers at found
  split at found
  · rename_i empty
    rw [Array.isEmpty_iff.1 empty] at defined
    exact .inl ⟨Option.toList_eq_nil_iff.1 found, defined.eq_nil⟩
  · exact .inr ⟨_, _, Option.toList_eq_singleton_iff.1 found,
      reads_membersFunction _ defined, defined⟩

/-- A class with members of all kinds and a singleton block, behind a method. In the class there is
a module, and in the module a mixin. -/
def memberUnit : Program :=
  let method (name : String) : Stmt := .method .zero name [] []
  let «open» (kind : NamespaceKind) (name : String) (body : List Stmt) : Stmt :=
    .namespace .zero kind ⟨[name], false⟩ none body
  .ofStatements [method "top", «open» .class "A" [
    .attribute .zero .accessor [⟨"x", none⟩], method "m", .aliases .zero [⟨"n", "m"⟩],
    .singleton .zero [method "s"],
    «open» .module "M" [method "f", «open» .mixin "N" [method "g"]]]]

/-- Members of the class of all objects, of a class and a mixin, and of singletons. -/
theorem compileAgainst_methodDefinitions_memberUnit :
    let o := Options.forFile "members"
    let unit := memberUnit.unitInfo o .prelude
    let ofClass : DefinitionTarget := ⟨"Root::A", false, .fixed "Root::A" false⟩
    ∃ f, (compileAgainst o .prelude .prelude memberUnit).1.function = some f ∧
      (memberUnit.members unit).map Prod.fst =
        [⟨"Root::Std::Object", false, .forbidden⟩, ofClass, ofClass, ofClass, ofClass,
          ⟨"Root::A", true, .fixed "Root::A" true⟩, ⟨"Root::A::M", true, .fixed "Root::A::M" true⟩,
          ⟨"Root::A::M::N", false, .byName "Root::A::M::N"⟩] ∧
      f.DefinesMembers unit memberUnit := by
  intro o unit ofClass
  have compiles : (compileAgainst o .prelude .prelude memberUnit).1.function.isSome =
      true := by
    decide +kernel
  obtain ⟨f, compiled⟩ := Option.isSome_iff_exists.1 compiles
  exact ⟨f, compiled, by decide +kernel,
    compileAgainst_methodDefinitions o .prelude .prelude memberUnit compiled⟩

end StackCode
