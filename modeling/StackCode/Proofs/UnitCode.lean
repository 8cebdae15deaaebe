import StackCode.Proofs.BodyCode

/-!
# The code of a unit

The function of a unit without failures matches its source, with some of the functions that run
before its statements (`compileUnit_matches`). Which of those there are is only known from the
state that the statements leave, so the last steps are followed state by state and not by the
rules of `Ensures`.
-/

namespace StackCode

open List Option

variable {sources : List Source} {made : List (Option CompiledFunction)} (unit : UnitInfo)
  (span : Span) (p : Program) (s : CompileState) (o : Options) (r : Registry)

open Ensures

/-! ## What runs before the statements -/

namespace Ensures

variable {here : Setting} {P : Prop}

theorem createNamespace (record : NamespaceRecord) :
    Silently here P (StackCode.createNamespace record) :=
  (getConst _ _).quietBind fun parent => (loadSymbol _ _).quietBind fun name =>
    pure fun given => by simp [given, Instr.ivar?]

theorem linkSuperclass (ns : DeclaredNamespace) (span : Span) :
    Silently here P (StackCode.linkSuperclass ns span) := by
  unfold StackCode.linkSuperclass
  split
  · refine branch ?_ (pure fun _ => rfl)
    exact (getConst _ _).quietBind fun owner => (getConst _ _).quietBind fun superclass => pure
  · exact pure fun _ => rfl

theorem linkMixin (fullName : String) (span : Span) (mixin : String) :
    Silently here P (StackCode.linkMixin fullName span mixin) :=
  (getConst _ _).quietBind fun owner => (getConst _ _).quietBind fun mixin => pure

theorem linkNamespace (ns : DeclaredNamespace) :
    Silently here P (StackCode.linkNamespace ns) :=
  (linkSuperclass ns _).quietBind fun superclass =>
    (foldSilent ns.mixins fun mixin _ => linkMixin _ _ mixin).quietBind fun mixins => pure

theorem registerLayout (span : Span) (change : LayoutChange) :
    Silently here P (StackCode.registerLayout here.unit span change) := by
  unfold StackCode.registerLayout
  split
  · exact pure fun _ => rfl
  · exact (getConst _ _).quietBind fun owner => (loadValue rfl _).quietBind fun table =>
      pure fun given => by cases change.singleton <;> simp [given]

theorem definitions (name : String) (span : Span) {body : Compile Code}
    (silent : ∀ constants, Silently ⟨here.unit, .forbidden, constants, true⟩ True body) :
    Ensures here [] [] P (StackCode.definitions name here.unit span body)
      (Matches here.unit ⟨name, span, .forbidden, [], []⟩) := by
  refine (inFunction false fun constants => (silent constants).given).quietBind
    fun ⟨code, frame⟩ => pure fun given => ?_
  exact Frame.matches_finish (.of_silent (by simp [given.2.1])) given.2.2 _ span _ 0 0

theorem namespaceDefinitions (span : Span) :
    Ensures here [] [] P (StackCode.namespaceDefinitions here.unit span) fun made =>
      ∀ f ∈ made, Matches here.unit ⟨"<namespaceDefinitions>", span, .forbidden, [], []⟩ f := by
  refine get_bind fun s => branch (pure fun _ => nofun) ?_
  refine (definitions _ span fun _ => ?_).quietBind fun f => pure fun given g same => ?_
  · refine (foldSilent _ fun record _ => createNamespace record).quietBind fun creations => ?_
    exact (foldSilent _ fun ns _ => linkNamespace ns).quietBind fun links => pure
  · cases same
    exact given.2

theorem ivarDefinitions (span : Span) :
    Ensures here [] [] P (StackCode.ivarDefinitions here.unit span) fun made =>
      ∀ f ∈ made, Matches here.unit ⟨"<ivarIndices>", span, .forbidden, [], []⟩ f := by
  refine branch (pure fun _ => nofun) ?_
  refine (definitions _ span fun _ => ?_).quietBind fun f => pure fun given g same => ?_
  · exact foldSilent _ fun change _ => registerLayout span change
  · cases same
    exact given.2

theorem runHoisted (span : Span) {source : Source} {f : CompiledFunction}
    (matched : P → Matches here.unit source f) :
    Ensures here [source] [] P (StackCode.runHoisted span f) Silent :=
  (loadFunction span matched).bindQuiet fun function => pure

theorem runAll (span : Span) (items : List (Source × CompiledFunction)) (code : Code) :
    Ensures here (items.map Prod.fst) []
      ((∀ item ∈ items, Matches here.unit item.1 item.2) ∧ Silent code)
      ((items.map Prod.snd).foldlM
        (fun code f => return code ++ (← StackCode.runHoisted span f)) code) Silent := by
  induction items generalizing code with
  | nil => exact pure And.right
  | cons item rest ih =>
    have first : Ensures here [item.1] []
        ((∀ other ∈ item :: rest, Matches here.unit other.1 other.2) ∧ Silent code)
        (do return code ++ (← StackCode.runHoisted span item.2)) Silent :=
      (runHoisted span fun given => given.1 item mem_cons_self).bindQuiet fun more => pure
    rw [map_cons, map_cons, foldlM_cons]
    exact first.bind fun code => (ih code).pre fun given =>
      ⟨fun other member => given.1.1 other (mem_cons_of_mem _ member), given.2⟩

end Ensures

/-- The function that defines members. -/
def membersFunction (unit : UnitInfo) (span : Span) (members : MemberDefinitions) :
    CompiledFunction :=
  Frame.finish { Frame.new false .forbidden with pool := members.pool } "<methodDefinitions>"
    unit.options.file span 0 0
    (members.code ++ Code.plain span.ending .pushNil ++ Code.plain span.ending .ret)

theorem memberDefinitions_run :
    memberDefinitions unit span s =
      (if s.members.code.isEmpty then none else some (membersFunction unit span s.members), s) := by
  show (if s.members.code.isEmpty then _ else _ : Compile (Option CompiledFunction)) s = _
  split <;> rfl

theorem memberDefinitions_matches {unit : UnitInfo} {methods : List Source} {s : CompileState}
    (matched : Forall₂ (Matches unit) methods s.members.pool.functions)
    (silent : Silent s.members.code) :
    ∀ f ∈ (memberDefinitions unit span s).1, Matches unit ⟨"<methodDefinitions>", span, .forbidden,
      [], methods⟩ f := by
  intro f made
  rw [memberDefinitions_run] at made
  obtain ⟨-, ⟨⟩⟩ := ite_none_left_eq_some.1 made
  exact Frame.matches_finish (.of_silent (by simp [silent])) matched _ span _ 0 0

/-- The functions that run before the statements. Each one is made from what the one before it has
left. -/
theorem prologue_eq (unit : UnitInfo) (span : Span) (s : CompileState) :
    let s₁ := (namespaceDefinitions unit span s).2
    let s₂ := (ivarDefinitions unit span s₁).2
    prologue unit span s = sequence (runHoisted span)
      ([(namespaceDefinitions unit span s).1, (ivarDefinitions unit span s₁).1,
        (memberDefinitions unit span s₂).1].filterMap id) s₂ := by
  intro s₁ s₂
  have whole : prologue unit span s = sequence (runHoisted span)
      ([(namespaceDefinitions unit span s).1, (ivarDefinitions unit span s₁).1,
        (memberDefinitions unit span s₂).1].filterMap id) (memberDefinitions unit span s₂).2 := rfl
  rw [whole, memberDefinitions_run]

/-- The sources that a function was made for. -/
def madeFor (sources : List Source) (made : List (Option CompiledFunction)) :
    List (Source × CompiledFunction) :=
  (sources.zip made).filterMap fun (source, f) => f.map (source, ·)

theorem madeFor_sublist (sources : List Source) (made : List (Option CompiledFunction)) :
    ((madeFor sources made).map Prod.fst).Sublist sources := by
  induction sources generalizing made with
  | nil => simp [madeFor]
  | cons source rest ih =>
    cases made with
    | nil => simp [madeFor]
    | cons first others =>
      cases first with
      | none => exact (ih others).cons source
      | some f => exact (ih others).cons_cons source

theorem madeFor_functions (same : sources.length = made.length) :
    (madeFor sources made).map Prod.snd = made.filterMap id := by
  induction sources generalizing made with
  | nil =>
    cases made with
    | nil => rfl
    | cons _ _ => cases same
  | cons source rest ih =>
    cases made with
    | nil => cases same
    | cons first others =>
      have tail := ih (Nat.succ.inj same)
      cases first with
      | none => exact tail
      | some f => exact congrArg (f :: ·) tail

theorem madeFor_matches {unit : UnitInfo}
    (matched : Forall₂ (fun source f => ∀ g ∈ f, Matches unit source g) sources made) :
    ∀ item ∈ madeFor sources made, Matches unit item.1 item.2 := by
  induction matched with
  | nil => simp [madeFor]
  | @cons source f rest others first _ ih =>
    intro item member
    cases f with
    | none => exact ih item member
    | some f =>
      rcases mem_cons.1 member with rfl | later
      · exact first f rfl
      · exact ih item later

theorem prologue_run :
    Moves true s (prologue unit p.span s).2 ∧
      (Forall₂ (Matches unit) (p.trace unit).methods s.members.pool.functions →
        Silent s.members.code → s.current.ivars = .forbidden → s.Indexed →
        ¬Failed (prologue unit p.span s).2.issues →
        ∃ sources, sources.Sublist (p.hoistedSources unit) ∧
          Adds unit sources [] s (prologue unit p.span s).2 ∧
          Silent (prologue unit p.span s).1) := by
  -- The states between the functions.
  let span := p.span
  let s₁ := (namespaceDefinitions unit span s).2
  let s₂ := (ivarDefinitions unit span s₁).2
  let made := [(namespaceDefinitions unit span s).1, (ivarDefinitions unit span s₁).1,
    (memberDefinitions unit span s₂).1]
  let items := madeFor (p.hoistedSources unit) made
  have run : prologue unit span s = sequence (runHoisted span) (items.map Prod.snd) s₂ := by
    rw [prologue_eq, madeFor_functions rfl]
  rw [run]
  let here : Setting := ⟨unit, .forbidden,
    (sequence (runHoisted span) (items.map Prod.snd) s₂).2.current.pool.values.toList, true⟩
  have first : Ensures here [] [] True (namespaceDefinitions unit span) _ :=
    .namespaceDefinitions span
  have second : Ensures here [] [] True (ivarDefinitions unit span) _ := .ivarDefinitions span
  have last : Ensures here (items.map Prod.fst) [] _ _ _ := .runAll span items #[]
  have moves := (first.moves s).trans (second.moves s₁)
  have moves₃ := last.moves s₂
  refine ⟨moves.trans moves₃, ?_⟩
  intro matched silent access indexed clean
  have clean₂ : ¬Failed s₂.issues := fun failed => clean (moves₃.failed failed)
  have ends₂ : s₂.current.pool.values.toList <+: here.constants := moves₃.pool.values
  obtain ⟨adds₁, namespaces⟩ := first.holds trivial s ⟨access, indexed,
    (second.moves s₁).pool.values.trans ends₂, fun failed => clean₂ (second.failed s₁ failed)⟩
  obtain ⟨adds₂, ivars⟩ := second.holds trivial s₁ ⟨(first.moves s).ivars.trans access,
    (first.moves s).indexed indexed, ends₂, clean₂⟩
  have adds : Adds unit [] [] s s₂ := adds₁.trans adds₂ (second.moves s₁).members
  -- The first two functions define no members, so the members are still those of the statements.
  have methods : Forall₂ (Matches unit) (p.trace unit).methods
      s₂.members.pool.functions := by
    obtain ⟨_, ⟨⟩, functions⟩ := adds.members_eq
    rwa [functions, append_nil]
  have members := memberDefinitions_matches span methods (by rwa [Silent, adds.code_eq])
  have itemsMatch : ∀ item ∈ items, Matches unit item.1 item.2 :=
    madeFor_matches (.cons namespaces (.cons ivars (.cons members .nil)))
  obtain ⟨adds₃, silence⟩ := last.holds ⟨itemsMatch, rfl⟩ s₂
    ⟨moves.ivars.trans access, moves.indexed indexed, prefix_refl _, clean⟩
  exact ⟨items.map Prod.fst, madeFor_sublist .., adds.trans adds₃ moves₃.members, silence⟩

/-! ## Units -/

/-- What a unit has before its layouts are known. -/
def Program.linked (p : Program) (r : Registry) : Collection :=
  link r p.statements (collect r p.statements)

/-- What a unit has before its statements are compiled. -/
def Program.laidOut (p : Program) (r : Registry) : LayingOut :=
  layOut r (p.linked r).declared (p.linked r).issues

/-- The unit as its statements see it. -/
def Program.unitInfo (p : Program) (o : Options) (r : Registry) : UnitInfo :=
  ⟨o, r, (p.linked r).declared, (p.laidOut r).layouts⟩

/-- The state behind the statements of a unit, with their code. -/
def Program.compiledBody (p : Program) (o : Options) (r : Registry) : Code × CompileState :=
  compileStmts ⟨p.unitInfo o r, [rootName], .topLevel⟩ false false #[]
    p.statements
    (.initial (p.laidOut r).issues)

/-- The state behind what runs before the statements, with its code. -/
def Program.compiledPrologue (p : Program) (o : Options) (r : Registry) :
    Code × CompileState :=
  prologue (p.unitInfo o r) p.span
    (p.compiledBody o r).2

theorem compileProgram_run :
    compileProgram unit p s =
      let body := compileStmts ⟨unit, [rootName], .topLevel⟩ false false #[] p.statements s
      let first := prologue unit p.span body.2
      (first.1 ++ body.1 ++ Code.plain p.span.ending .pushNil ++
        Code.plain p.span.ending .ret, first.2) := by
  unfold compileProgram
  generalize compileStmts _ _ _ _ _ = statements
  generalize prologue _ _ = first
  rfl

theorem compileUnit_eq (p : Program) :
    compileUnit o r p =
      { function := (p.compiledPrologue o r).2.current.finish
          o.mainName o.file p.span 0 0
          ((p.compiledPrologue o r).1 ++
            (p.compiledBody o r).1 ++ Code.plain p.span.ending .pushNil ++
            Code.plain p.span.ending .ret)
        issues := (p.compiledPrologue o r).2.issues
        declared := (p.linked r).declared
        layouts := (p.laidOut r).layouts } := by
  unfold compileUnit Program.compiledPrologue Program.compiledBody Program.unitInfo
    Program.laidOut Program.linked
  dsimp only
  generalize link r p.statements (collect r p.statements) = linked
  generalize layOut r linked.declared linked.issues = laidOut
  rw [StateT.run, compileProgram_run]

theorem compileUnit_issues (p : Program) :
    (compileUnit o r p).issues =
      (p.compiledPrologue o r).2.issues := by
  rw [compileUnit_eq]

theorem statements_make (constants : List Value) :
    Makes ⟨unit, .forbidden, constants, true⟩ (p.trace unit) True
      (compileStmts ⟨unit, [rootName], .topLevel⟩ false false #[] p.statements)
      (p.members unit) :=
  (compileStmts_makes ⟨unit, [rootName], .topLevel⟩ p.statements false false #[]).makes

theorem indexed_initial (issues : Array Issue) : (CompileState.initial issues).Indexed :=
  ⟨.new, .new⟩

theorem compiledBody_moves :
    Moves true (.initial (p.laidOut r).issues) (p.compiledBody o r).2 := by
  unfold Program.compiledBody
  exact (statements_make (p.unitInfo o r) p []).moves _

theorem compiledPrologue_moves :
    Moves true (p.compiledBody o r).2 (p.compiledPrologue o r).2 := by
  unfold Program.compiledPrologue
  exact (prologue_run (p.unitInfo o r) p _).1

theorem compiledBody_adds {constants : List Value}
    (ends : (p.compiledBody o r).2.current.pool.values.toList <+: constants)
    (clean : ¬Failed (p.compiledBody o r).2.issues) :
    Adds (p.unitInfo o r)
      (p.trace (p.unitInfo o r)).nested
        (p.members (p.unitInfo o r))
        (.initial (p.laidOut r).issues) (p.compiledBody o r).2 ∧
      Piece ⟨p.unitInfo o r, .forbidden, constants, true⟩
        (p.trace (p.unitInfo o r)).uses
          (p.compiledBody o r).1 := by
  unfold Program.compiledBody at ends clean ⊢
  exact (statements_make (p.unitInfo o r) p constants).holds trivial _
    ⟨rfl, indexed_initial _, ends, clean⟩

/-- The code behind the statements that defines the members of the unit. -/
theorem compiledBody_members (clean : ¬Failed (p.compiledBody o r).2.issues) :
    DefinedBy (p.unitInfo o r)
      (p.compiledBody o r).2.members.pool.values.toList
      (p.members (p.unitInfo o r))
      (p.compiledBody o r).2.members.code.instrs := by
  obtain ⟨adds, -⟩ := compiledBody_adds p o r (prefix_refl _) clean
  obtain ⟨instrs, same, defined⟩ := adds.definitions
  rw [same]
  exact defined _ (prefix_refl _)

theorem compiledPrologue_failed (failed : Failed (p.compiledBody o r).2.issues) :
    Failed (p.compiledPrologue o r).2.issues :=
  (compiledPrologue_moves p o r).failed failed

theorem compileUnit_failed {o : Options} {r : Registry} {p : Program}
    (failed : Failed (p.laidOut r).issues) :
    Failed (compileUnit o r p).issues := by
  rw [compileUnit_issues]
  exact compiledPrologue_failed p o r
    ((compiledBody_moves p o r).failed failed)

/-- **The function of a unit without failures matches its source.** -/
theorem compileUnit_matches {o : Options} {r : Registry} {p : Program}
    (clean : ¬Failed (compileUnit o r p).issues) :
    ∃ hoisted, hoisted.Sublist (p.hoistedSources (p.unitInfo o r)) ∧
      Matches (p.unitInfo o r)
        (p.source (p.unitInfo o r) hoisted)
          (compileUnit o r p).function := by
  rw [compileUnit_issues] at clean
  rw [compileUnit_eq]
  -- A failure of the statements would still be there at the end.
  have cleanBody : ¬Failed (p.compiledBody o r).2.issues := fun failed =>
    clean (compiledPrologue_failed p o r failed)
  obtain ⟨adds, piece⟩ := compiledBody_adds p o r
    (compiledPrologue_moves p o r).pool.values cleanBody
  have moves := compiledBody_moves p o r
  obtain ⟨methods, methodsMatch, members_eq⟩ := adds.members_eq
  obtain ⟨nested, nestedMatch, functions_eq⟩ := adds.functions_eq
  have membersMatch : Forall₂ (Matches (p.unitInfo o r))
      (p.trace (p.unitInfo o r)).methods
      (p.compiledBody o r).2.members.pool.functions := by
    rwa [members_eq, (p.encloses _).methods]
  unfold Program.compiledPrologue at clean piece ⊢
  obtain ⟨hoisted, sublist, addsHoisted, silent⟩ :=
    (prologue_run (p.unitInfo o r) p
    (p.compiledBody o r).2).2 membersMatch
      (compiledBody_members p o r cleanBody).silent moves.ivars (moves.indexed
        (indexed_initial _)) clean
  obtain ⟨made, hoistedMatch, hoisted_eq⟩ := addsHoisted.functions_eq
  have functions : Forall₂ (Matches (p.unitInfo o r))
      ((p.trace (p.unitInfo o r)).nested ++ hoisted)
      (prologue (p.unitInfo o r) p.span
        (p.compiledBody o r).2).2.current.pool.functions := by
    rw [hoisted_eq, functions_eq]
    exact rel_append nestedMatch hoistedMatch
  exact ⟨hoisted, sublist, Frame.matches_finish (by simpa [silent] using piece)
    functions o.mainName p.span _ 0 0⟩

/-- A unit without failures is compiled, and is published where it is in conflict with nothing. -/
structure Published (base current : Registry) (p : Program) : Prop where
  clean : ¬Failed (compileUnit o base p).issues
  agreed : publishConflicts base current (p.linked base).declared
    (p.laidOut base).layouts = []
  function : (compileAgainst o base current p).1.function =
    some (compileUnit o base p).function
  live : (compileAgainst o base current p).2 =
    publishInto base current (p.linked base).declared (p.laidOut base).layouts

/-- A unit is published as a whole, with a function, or not at all. -/
theorem compileAgainst_cases (base current : Registry) (p : Program) :
    (compileAgainst o base current p).1.function = none ∧
        (compileAgainst o base current p).2 = current ∨
      Published o base current p := by
  have declared : (compileUnit o base p).declared = (p.linked base).declared := by
    rw [compileUnit_eq]
  have layouts : (compileUnit o base p).layouts = (p.laidOut base).layouts := by
    rw [compileUnit_eq]
  refine Or.imp_right (fun h : _ ∧ _ ∧ _ ∧ _ => ⟨h.1, h.2.1, h.2.2.1, h.2.2.2⟩) ?_
  rw [← declared, ← layouts]
  unfold compileAgainst Failed
  generalize compileUnit o base p = unit
  dsimp only
  split
  · exact .inl ⟨rfl, rfl⟩
  · rename_i clean
    split
    · rename_i none
      exact .inr ⟨clean, none, rfl, rfl⟩
    · exact .inl ⟨rfl, rfl⟩

theorem compileAgainst_published {o : Options} {base current : Registry} {p : Program}
    {f : CompiledFunction}
    (compiled : (compileAgainst o base current p).1.function = some f) :
    Published o base current p ∧ f = (compileUnit o base p).function := by
  rcases compileAgainst_cases o base current p with ⟨none, -⟩ | published
  · rw [none] at compiled
    cases compiled
  · exact ⟨published, Option.some.inj (compiled.symm.trans published.function)⟩

end StackCode
