import StackCode.Proofs.Defining
import StackCode.Proofs.UnitPieces

/-!
# What the definitions of namespaces do

The namespaces of a unit are created and linked by a function of its own, which the unit loads as a
constant and runs first. It is told from the other functions of the unit by its name
(`compileUnit_namespaceDefinitions`).
-/

namespace StackCode

open List Option

variable (unit : UnitInfo) (span : Span) {operations : List Op} {g : CompiledFunction}
  {program : Program} {o : Options} {r : Registry}

/-! ## The function that defines the namespaces -/

/-- The name of a function that the text of a unit has directly in it. -/
def IsBodyName (name : String) : Prop :=
  name = "<closure>" ∨ ∃ fullName, name = "<namespace: " ++ fullName ++ ">"

theorem IsBodyName.ne {name other : String} (isBody : IsBodyName name)
    (noClosure : other ≠ "<closure>")
    (noColon : other.toList[10]? ≠ some ':') : name ≠ other := by
  rintro rfl
  rcases isBody with same | ⟨fullName, rfl⟩
  · exact noClosure same
  · refine noColon ?_
    simp only [String.toList_append, List.append_assoc]
    rw [List.getElem?_append_left (by decide)]
    decide

theorem Source.Inside.isBodyName {ivars : IvarAccess} {source : Source}
    (inside : source.Inside ivars) :
    IsBodyName source.name := by
  cases inside with
  | closure => exact .inl rfl
  | body => exact .inr ⟨_, rfl⟩

/-- The function that defines the namespaces of a unit. -/
def CompiledFunction.namespaceDefinitions? (f : CompiledFunction) : Option CompiledFunction :=
  (f.constants.filterMap Value.function?).find? (·.name = "<namespaceDefinitions>")

theorem runHoisted_functions (functions : List CompiledFunction) (code : Code) (s : CompileState)
    (clean : ¬Failed
      (functions.foldlM (fun code f => return code ++ (← runHoisted span f)) code s).2.issues) :
    (functions.foldlM (fun code f => return code ++ (← runHoisted span f))
      code s).2.current.pool.functions = s.current.pool.functions ++ functions := by
  induction functions generalizing code s with
  | nil => exact (append_nil _).symm
  | cons f rest ih =>
    rw [foldlM_cons] at clean ⊢
    rcases Ensures.addConstant_run (.function f) span s with ⟨index, isAdded, added⟩ | ⟨_, reported⟩
    · refine (ih _ _ clean).trans ?_
      show (Compile.addConstant (.function f) span s).2.current.pool.functions ++ rest = _
      rw [added]
      rcases s.current.pool.functions_addFunction f with ⟨failure, failed⟩ | last
      · rw [failed] at isAdded
        cases isAdded
      · show (s.current.pool.add (.function f)).2.functions ++ rest = _
        rw [last, List.append_assoc]
        rfl
    · refine (clean (runHoisted_failed span rest _ _ ?_)).elim
      show Failed (Compile.addConstant (.function f) span s).2.issues
      rw [reported]
      exact failed_push_failure _ _ _

/-- The function that defines some members, if there are any. -/
def UnitInfo.definingMembers (unit : UnitInfo) (span : Span) (members : MemberDefinitions) :
    List CompiledFunction :=
  if members.code.isEmpty then [] else [membersFunction unit span members]

theorem UnitInfo.name_definingMembers {unit : UnitInfo} {span : Span} {members : MemberDefinitions}
    (isMember : g ∈ unit.definingMembers span members) :
    g.name = "<methodDefinitions>" := by
  unfold definingMembers at isMember
  split at isMember
  · cases isMember
  · rw [mem_singleton.1 isMember]
    rfl

/-- The functions that run before the statements are made behind them, and told apart by their
names. -/
theorem prologue_functions {s : CompileState} (ok : s.current.pool.Ok) (indexed : s.Indexed)
    (clean : ¬Failed (prologue unit span s).2.issues) :
    ∃ namespaces ivars, (prologue unit span s).2.current.pool.functions =
        s.current.pool.functions ++ (namespaces ++ (ivars ++ unit.definingMembers span s.members)) ∧
      Forall₂ BuiltStraight
        (if s.records.size = 0 then [] else [unit.namespaceOps s.records]) namespaces ∧
      Forall₂ BuiltStraight
        (if unit.layouts.changes.isEmpty then [] else [unit.layoutOps]) ivars ∧
      (∀ g ∈ namespaces, g.name = "<namespaceDefinitions>") ∧
        ∀ g ∈ ivars, g.name = "<ivarIndices>" := by
  let s₁ := (namespaceDefinitions unit span s).2
  let s₂ := (ivarDefinitions unit span s₁).2
  rw [prologue_eq] at clean ⊢
  have clean₂ : ¬Failed s₂.issues := fun early => clean (runHoisted_failed span _ #[] s₂ early)
  -- The first two functions are made aside, so that the pool stays as it was.
  have first : Ensures ⟨unit, s.current.ivars, s₂.current.pool.values.toList, true⟩ [] [] True
      (namespaceDefinitions unit span) _ := .namespaceDefinitions span
  have second : Ensures ⟨unit, s.current.ivars, s₂.current.pool.values.toList, true⟩ [] [] True
      (ivarDefinitions unit span) _ := .ivarDefinitions span
  have clean₁ : ¬Failed s₁.issues := fun early => clean₂ (second.failed s₁ early)
  have moves := first.moves s
  obtain ⟨adds₁, isFirst⟩ :=
    first.holds trivial s ⟨rfl, indexed, (second.moves s₁).pool.values, clean₁⟩
  obtain ⟨adds₂, isSecond⟩ := second.holds trivial s₁
    ⟨moves.ivars, moves.indexed indexed, prefix_refl _, clean₂⟩
  obtain ⟨_, ⟨⟩, functions⟩ := (adds₁.trans adds₂ (second.moves s₁).members).functions_eq
  obtain ⟨loading₁, built⟩ :=
    (Loads.namespaceDefinitions (P := fun _ => True) unit span s.records).holds s
    ok (fun _ _ => trivial) clean₁
  obtain ⟨loading₂, builtIvars⟩ := (Loads.ivarDefinitions (P := fun _ => True) unit span).holds s₁
    loading₁.ok (fun _ _ => trivial) clean₂
  refine ⟨(namespaceDefinitions unit span s).1.toList, (ivarDefinitions unit span s₁).1.toList, ?_,
    built _ (prefix_refl _), builtIvars _ (prefix_refl _), ?_, ?_⟩
  · refine (runHoisted_functions span _ #[] s₂ clean).trans ?_
    rw [functions, append_nil, memberDefinitions_run, (loading₁.trans loading₂).members]
    unfold UnitInfo.definingMembers
    cases (namespaceDefinitions unit span s).1 <;> cases (ivarDefinitions unit span s₁).1 <;>
      split <;> rfl
  · exact fun g member => (isFirst g (Option.mem_toList.1 member)).name_eq
  · exact fun g member => (isSecond g (Option.mem_toList.1 member)).name_eq

theorem compiledBody_tracks (clean : ¬Failed (program.compiledBody o r).2.issues) :
    (program.compiledBody o r).2.current.pool.Ok ∧
      (program.compiledBody o r).2.records =
        (program.flow (program.unitInfo o r)).2.records := by
  obtain ⟨tracks, -, -⟩ := ((compileStmts_run ⟨program.unitInfo o r, [rootName],
    .topLevel⟩ program.statements false false #[]).runs fun _ => True).holds
      (.initial (program.laidOut r).issues) .start (.initial _) (fun _ _ => trivial) clean
  exact ⟨tracks.head.pool, tracks.records⟩

/-- The functions of a unit: those in its text, and those that run before its statements. -/
theorem compileUnit_functions (clean : ¬Failed (compileUnit o r program).issues) :
    let unit := program.unitInfo o r
    let records := (program.flow unit).2.records
    ∃ bodies namespaces ivars,
      (compileUnit o r program).function.constants.filterMap Value.function? =
        bodies ++ (namespaces ++ (ivars ++ unit.definingMembers program.span
          (program.compiledBody o r).2.members)) ∧
      Forall₂ BuiltStraight (if records.size = 0 then [] else [unit.namespaceOps records])
        namespaces ∧
      Forall₂ BuiltStraight (if unit.layouts.changes.isEmpty then [] else [unit.layoutOps]) ivars ∧
      (∀ g ∈ bodies, IsBodyName g.name) ∧ (∀ g ∈ namespaces, g.name = "<namespaceDefinitions>") ∧
      ∀ g ∈ ivars, g.name = "<ivarIndices>" := by
  dsimp only
  rw [compileUnit_issues] at clean
  have cleanBody : ¬Failed (program.compiledBody o r).2.issues := fun failed =>
    clean (compiledPrologue_failed program o r failed)
  obtain ⟨ok, isRecords⟩ := compiledBody_tracks cleanBody
  obtain ⟨adds, -⟩ := compiledBody_adds program o r (prefix_refl _) cleanBody
  obtain ⟨bodies, areBodies, functions⟩ := adds.functions_eq
  obtain ⟨namespaces, ivars, behind, built, builtIvars, names⟩ :=
    prologue_functions _ program.span ok
      ((compiledBody_moves program o r).indexed (indexed_initial _)) clean
  rw [isRecords] at built
  refine ⟨bodies, namespaces, ivars, ?_, built, builtIvars, fun g member => ?_, names⟩
  · have inText : (program.compiledBody o r).2.current.pool.functions = bodies := functions
    rw [compileUnit_eq, ← inText, ← behind]
    dsimp only
    rw [Frame.constants_finish, Pool.functions, Program.compiledPrologue]
  · obtain ⟨source, inText, matched⟩ := exists_of_forall₂ areBodies member
    rw [matched.name_eq]
    exact ((program.encloses _).nested source inText).isBodyName

theorem toList_find?_name {name : String} {before own behind : List CompiledFunction}
    (early : ∀ g ∈ before, g.name ≠ name) (isOwn : ∀ g ∈ own, g.name = name)
    (late : ∀ g ∈ behind, g.name ≠ name) (few : own.length ≤ 1) :
    ((before ++ (own ++ behind)).find? (·.name = name)).toList = own := by
  have skipped (functions : List CompiledFunction) (names : ∀ g ∈ functions, g.name ≠ name) :
      functions.find? (·.name = name) = none :=
    List.find?_eq_none.2 fun g member => by simpa using names g member
  rw [List.find?_append, skipped before early, none_or, List.find?_append,
    skipped behind late, or_none]
  cases own with
  | nil => rfl
  | cons g rest =>
    obtain rfl : rest = [] := length_eq_zero_iff.1 (Nat.le_zero.1 (Nat.le_of_succ_le_succ few))
    rw [List.find?_cons_of_pos (by simpa using isOwn g mem_cons_self)]
    rfl

theorem length_le_one {p : Prop} [Decidable p] {own : List CompiledFunction}
    (built : Forall₂ BuiltStraight (if p then [] else [operations]) own) :
    own.length ≤ 1 := by
  rw [← built.length_eq]
  split <;> simp

/-- **The function that defines the namespaces of a unit does what the unit asks for.** There is
none exactly if no namespace is opened. -/
theorem compileUnit_namespaceDefinitions
    (clean : ¬Failed (compileUnit o r program).issues) :
    let unit := program.unitInfo o r
    let records := (program.flow unit).2.records
    Forall₂ BuiltStraight (if records.size = 0 then [] else [unit.namespaceOps records])
      (compileUnit o r program).function.namespaceDefinitions?.toList := by
  obtain ⟨bodies, namespaces, ivars, functions, built, -, isBody, names, isIvars⟩ :=
    compileUnit_functions clean
  have early : ∀ g ∈ bodies, g.name ≠ "<namespaceDefinitions>" := fun g member =>
    (isBody g member).ne (by decide) (by decide)
  have late : ∀ g ∈ ivars ++ (program.unitInfo o r).definingMembers program.span
      (program.compiledBody o r).2.members, g.name ≠ "<namespaceDefinitions>" := by
    intro g member
    rcases mem_append.1 member with isIvar | isMember
    · rw [isIvars g isIvar]
      decide
    · rw [UnitInfo.name_definingMembers isMember]
      decide
  rw [CompiledFunction.namespaceDefinitions?, functions,
    toList_find?_name early names late (length_le_one built)]
  exact built

/-- What the definitions of the namespaces of a unit do. Without any, nothing changes. -/
def CompiledFunction.defineNamespaces (f : CompiledFunction) (d : Defining) : Option Defining :=
  match f.namespaceDefinitions? with
  | none => some d
  | some g => d.run g.constants g.reads

theorem UnitInfo.namespaceOps_defines (records : OrderedMap NamespaceRecord) :
    ∀ op ∈ unit.namespaceOps records, op.Defines := by
  -- Two operands are pushed, and the operation behind them takes both.
  have three {a b c : Op} (first : a.Defines) (second : b.Defines) (third : c.Defines) :
      ∀ op ∈ [a, b, c], op.Defines := by
    simp [first, second, third]
  have refers (n : String) : (Op.constant (some n)).Defines := rfl
  have sets : (Op.plain .setSuperclass).Defines := nofun
  have mixes : (Op.plain .includeMixin).Defines := nofun
  intro op member
  rcases mem_append.1 member with creates | links
  · obtain ⟨record, -, inside⟩ := mem_flatMap.1 creates
    have loads : (Op.value (.symbol record.name)).Defines := trivial
    have creates : (Op.defNamespace record.kind).Defines := trivial
    exact three (refers _) loads creates op inside
  · obtain ⟨ns, -, inside⟩ := mem_flatMap.1 links
    rcases mem_append.1 inside with superclass | mixins
    · unfold DeclaredNamespace.superclassOps at superclass
      cases linked : ns.superclass with
      | none =>
        rw [linked] at superclass
        cases superclass
      | some S =>
        rw [linked] at superclass
        dsimp only at superclass
        split at superclass
        · exact three (refers _) (refers _) sets op superclass
        · cases superclass
    · obtain ⟨M, -, inside⟩ := mem_flatMap.1 mixins
      exact three (refers _) (refers _) mixes op inside

theorem BuiltStraight.run (straight : BuiltStraight operations g)
    (defines : ∀ op ∈ operations, op.Defines) (d : Defining) :
    d.run g.constants g.reads = (d.performAll operations).map fun d => { d with stack := [] } := by
  obtain ⟨room, instrs, assembled⟩ := straight.assembled
  rw [assembled.written.reads]
  have codes := assembled.codes 0
  have body := Defining.run_of_encoded (W := g.world (Scheme.straight operations).captured) defines
    (by cases codes with | ops each => exact each) d
  rcases assembled.isRoom with rfl | ⟨i, rfl⟩
  · exact body
  · exact body

/-- **The definitions of the namespaces of a unit do what the unit asks for.** -/
theorem compileUnit_defineNamespaces (clean : ¬Failed (compileUnit o r program).issues)
    {d : Defining} (empty : d.stack = []) :
    let unit := program.unitInfo o r
    (compileUnit o r program).function.defineNamespaces d =
      (d.performAll (unit.namespaceOps (program.flow unit).2.records)).map fun d =>
        { d with stack := [] } := by
  intro unit
  have built := compileUnit_namespaceDefinitions clean
  dsimp only at built
  unfold CompiledFunction.defineNamespaces
  generalize (compileUnit o r program).function.namespaceDefinitions? = g at *
  split at built
  · rename_i none
    cases g with
    | some g => cases built
    | none =>
      have nothing : unit.namespaceOps (program.flow unit).2.records = [] := by
        have noKeys : (program.flow unit).2.records.keys.toList = [] :=
          Array.toList_eq_nil_iff.2 (Array.size_eq_zero_iff.1 none)
        have noneRecorded : unit.declared.namespaces.toValues.filter
            (fun ns => (program.flow unit).2.records.contains ns.fullName) = [] := by
          refine filter_eq_nil_iff.2 fun ns _ recorded => ?_
          rw [OrderedMap.contains_eq, ← OrderedMap.mem_keys_iff, noKeys] at recorded
          cases recorded
        rw [UnitInfo.namespaceOps, noneRecorded, OrderedMap.toValues, noKeys]
        rfl
      rw [nothing]
      cases d
      cases empty
      rfl
  · cases g with
    | none => cases built
    | some g =>
      cases built with
      | cons straight => exact straight.run (unit.namespaceOps_defines _) d

end StackCode
