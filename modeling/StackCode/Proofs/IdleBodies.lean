import StackCode.Proofs.Steps
import StackCode.Proofs.UnitCode

/-!
# Namespace bodies that do nothing

The body of a namespace is compiled to a function of its own, which is run only if one of its
statements does anything when the declaration runs. Otherwise it is thrown away, and that loses
nothing (`declareNamespace_idle`): such statements make no code and leave the function that they are
in as it was (`compileStmts_idle`), although its pool is put aside while members are defined, and
the function itself while a method is compiled.
-/

namespace StackCode

variable {α β γ : Type}

/-! ## What steps keep -/

/-- A step leaves something of the state as it was. -/
def Keeps (view : CompileState → γ) (c : Compile α) : Prop := ∀ s, view (c s).2 = view s

/-- What is left of the state apart from the constants of the current function. -/
def CompileState.unpooled (s : CompileState) : MemberDefinitions × Frame :=
  (s.members, { s.current with pool := .new })

namespace Keeps

variable {view : CompileState → γ} {c : Compile α} {next : α → Compile β} {span : Span}

theorem pure (a : α) : Keeps view (Pure.pure a : Compile α) := fun _ => rfl

theorem bind (first : Keeps view c) (second : ∀ a, Keeps view (next a)) : Keeps view (c >>= next) :=
  fun s => (second _ _).trans (first s)

theorem failAll (failures : List Failure) : Keeps (·.current) (Compile.failAll failures span) := by
  induction failures with
  | nil => exact pure ()
  | cons failure rest ih => exact bind (fun _ => rfl) fun _ => ih

theorem checkDeclaration (site : Site) (declaration : Declaration) :
    Keeps (·.current) (Compile.checkDeclaration site declaration span) := by
  unfold Compile.checkDeclaration
  split <;> exact fun _ => rfl

theorem inFunction {ivars : IvarAccess} (moves : ∀ s, Moves true s (c s).2) :
    Keeps (·.current) (Compile.inFunction false ivars c) := by
  intro s
  rw [Compile.inFunction_run]
  have around : Outside false (s.current :: s.enclosing) (c (s.nested false ivars)).2.enclosing :=
    (moves (s.nested false ivars)).enclosing
  unfold CompileState.returned
  generalize (c (s.nested false ivars)).2.enclosing = enclosing at around
  cases around
  rfl

theorem addConstant (value : Value) : Keeps (·.unpooled) (Compile.addConstant value span) := by
  intro s
  rcases Ensures.addConstant_run value span s with ⟨_, -, run⟩ | ⟨_, run⟩ <;> rw [run] <;> rfl

theorem loadValue (value : Value) : Keeps (·.unpooled) (Compile.loadValue value span) :=
  (addConstant value).bind fun _ => pure _

theorem loadTarget (target : DefinitionTarget) :
    Keeps (·.unpooled) (Compile.loadTarget target span) :=
  ((addConstant _).bind fun _ => pure _).bind fun _ => pure _

theorem defineAttribute (target : DefinitionTarget) (kind : AttributeKind) (name : String) :
    Keeps (·.unpooled) (Compile.defineAttribute target kind name span) := by
  have named (op : PlainOp) : Keeps (·.unpooled) (do
      let owner ← Compile.loadTarget target span
      let name ← Compile.loadSymbol name span
      return owner ++ name ++ Code.plain span op) :=
    (loadTarget target).bind fun _ => (loadValue _).bind fun _ => pure _
  cases kind with
  | getter | setter => exact named _
  | accessor => exact (named _).bind fun _ => (named _).bind fun _ => pure _

theorem defineAlias (target : DefinitionTarget) (entry : Alias) :
    Keeps (·.unpooled) (Compile.defineAlias target entry span) :=
  (loadTarget target).bind fun _ => (loadValue _).bind fun _ => (loadValue _).bind fun _ => pure _

theorem inMembers {body : Compile Code} (fills : Keeps (·.unpooled) body) :
    Keeps (·.current) (Compile.inMembers body) := by
  intro s
  have kept : (body s.swapped).2.unpooled = s.swapped.unpooled := fills s.swapped
  have pool : (body s.swapped).2.members.pool = s.current.pool := congrArg (·.1.pool) kept
  show { (body s.swapped).2.current with pool := (body s.swapped).2.members.pool } = s.current
  rw [pool]
  exact congrArg (fun kept : MemberDefinitions × Frame =>
    { kept.2 with pool := s.current.pool }) kept

theorem defineEntries (site : Site) (declaration : Declaration)
    {step : DefinitionTarget → γ → Compile Code} (entries : List γ)
    (each : ∀ target entry, Keeps (·.unpooled) (step target entry)) :
    Keeps (·.current) (do
      if ← Compile.checkDeclaration site declaration span then
        match site.definitionTarget? with
        | none => return
        | some target =>
          Compile.inMembers <| entries.foldlM (fun code entry =>
            return code ++ (← step target entry)) #[]) := by
  refine (checkDeclaration site declaration).bind fun legal => ?_
  split
  · split
    · exact pure ()
    · refine inMembers ?_
      generalize (#[] : Code) = code
      induction entries generalizing code with
      | nil => exact pure code
      | cons entry rest ih =>
        rw [List.foldlM_cons]
        exact ((each _ entry).bind fun _ => pure _).bind ih
  · exact pure ()

theorem declareMethod (site : Site) (name : String) (params : List Parameter)
    {body : Site → Compile Code}
    (moves : ∀ s, Moves true s (body site.inBody s).2) :
    Keeps (·.current) (StackCode.declareMethod site name params span body) := by
  refine (checkDeclaration site .method).bind fun legal => bind (fun _ => rfl) fun s => ?_
  refine (inFunction moves).bind fun made => ?_
  cases (if legal then site.definitionTarget? else none) with
  | none => exact pure ()
  | some target =>
    exact inMembers ((loadTarget _).bind fun _ => (loadValue _).bind fun _ =>
      (loadValue _).bind fun _ => pure _)

end Keeps

/-! ## Statements that do nothing -/

/-- A step makes no code, and leaves the function that is compiled as it was. -/
def Idle (c : Compile Code) : Prop := ∀ s, (c s).1 = #[] ∧ (c s).2.current = s.current

theorem Keeps.before {c : Compile α} {next : α → Compile Code} (keeps : Keeps (·.current) c)
    (idle : ∀ a, Idle (next a)) : Idle (c >>= next) := fun s =>
  ⟨(idle _ _).1, (idle _ _).2.trans (keeps s)⟩

theorem Keeps.idle {c : Compile α} (keeps : Keeps (·.current) c) :
    Idle (do let _ ← c; return #[]) :=
  keeps.before fun _ _ => ⟨rfl, rfl⟩

theorem Idle.inScope {c : Compile Code} (idle : Idle c) (span : Span) :
    Idle (Compile.inScope span c) := by
  intro s
  obtain ⟨empty, kept⟩ := idle s.entered
  have captured : (c s.entered).2.current.scopes.exit.1.captured = [] := by
    rw [kept]
    rfl
  have run := Compile.withScope_run c s span
  dsimp only at run
  rw [captured] at run
  refine ⟨?_, ?_⟩
  · show (Compile.withScope span c s).1.1 ++ (Compile.withScope span c s).1.2 = #[]
    rw [run, empty]
    rfl
  · show (Compile.withScope span c s).2.current = s.current
    rw [run]
    show { (c s.entered).2.current with scopes := (c s.entered).2.current.scopes.exit.2 } =
      s.current
    rw [kept]
    rfl

/-! ## The function of a body -/

/-- The body of a namespace, compiled to a function of its own. -/
def namespaceBody (site : Site) (kind : NamespaceKind) (fullName : String) (legal : Bool)
    (span : Span) (body : List Stmt) : Compile CompiledFunction := do
  let (code, frame) ← Compile.inFunction false (.fixed fullName true)
    (compileStmts (site.inNamespace fullName kind legal) false false #[] body)
  return frame.finish ("<namespace: " ++ fullName ++ ">") site.unit.options.file span 0 0
    (code ++ Code.plain span.ending .pushNil ++ Code.plain span.ending .ret)

/-- Declare a namespace, and hand on the function of its body. That is made whether or not there is
a namespace to open. -/
def declaring (site : Site) (kind : NamespaceKind) (path : Path) (span : Span) (body : List Stmt)
    (next : (opens : Bool) → (fullName : String) → CompiledFunction → Compile Code) :
    Compile Code := do
  let legal ← Compile.checkDeclaration site (.namespace kind) span
  let target := (declarationTarget site.nesting site.unit.lookup path).toOption
  let opened := site.opened? kind target
  let fullName := (target.map Prod.snd).getD site.fullName
  (opened.filter fun _ => legal).elim (pure ()) fun opened =>
    Compile.recordNamespace ⟨opened.2.1, opened.1, opened.2.2, kind, span⟩
  let function ← namespaceBody site kind fullName legal span body
  next (legal && opened.isSome) fullName function

/-- The function of a body is run if there is a namespace to open and the body does anything.
Otherwise it is dropped. -/
theorem compileStmt_namespace (site : Site) (kind : NamespaceKind) (path : Path) (span : Span)
    (superclass : Option Path) (body : List Stmt) :
    compileStmt site (.namespace span kind path superclass body) =
      declaring site kind path span body fun opens fullName function =>
        if opens && Stmt.anyRunsAtDeclaration body then do
          let owner ← Compile.getConst fullName span
          let function ← Compile.loadValue (.function function) span
          return owner ++ function ++ Code.plain span .initNamespace
        else return #[] := by
  unfold compileStmt declareNamespace declaring
  congr 1
  funext legal
  dsimp only
  generalize site.opened? kind _ = opened
  cases legal with
  | false => cases opened <;> rfl
  | true => cases opened <;> rfl

theorem Keeps.namespaceBody (site : Site) (kind : NamespaceKind) (fullName : String) (legal : Bool)
    (span : Span) (body : List Stmt) :
    Keeps (·.current) (namespaceBody site kind fullName legal span body) := by
  refine Keeps.bind (Keeps.inFunction ?_) fun _ => .pure _
  exact (@compileStmts_makes _ [] body false false #[] .forbidden True).moves

theorem declaring_idle (site : Site) (kind : NamespaceKind) (path : Path) (span : Span)
    (body : List Stmt) : Idle (declaring site kind path span body fun _ _ _ => return #[]) := by
  refine (Keeps.checkDeclaration site _).before fun legal => Keeps.before ?_ fun _ =>
    Keeps.idle (Keeps.namespaceBody site kind _ legal span body)
  cases Option.filter _ _ with
  | none => exact .pure ()
  | some opened =>
    intro s
    show (if s.records.contains _ then s else _).current = s.current
    split <;> rfl

mutual

/-- **A statement that does nothing when a declaration runs makes no code**, and leaves the function
that it is in as it was. -/
theorem compileStmt_idle (site : Site) : ∀ stmt : Stmt, stmt.runsAtDeclaration = false →
    Idle (compileStmt site stmt)
  | .namespace span kind path superclass body, idle => by
    have never : Stmt.anyRunsAtDeclaration body = false := idle
    rw [compileStmt_namespace, never]
    simp only [Bool.and_false]
    exact declaring_idle site kind path span body
  | .singleton span body, idle => (Keeps.checkDeclaration site .singleton).before fun _ =>
    (compileStmts_idle _ body false false idle).inScope span
  | .method span name params body, _ => by
    refine (Keeps.declareMethod site name params ?_).idle
    have made : Makes ⟨site.unit, .forbidden, [], true⟩ _ True _ :=
      functionBody_makes (fun slots => compileDefaults_makes site.inBody params slots #[])
        fun code _ => (compileBlock_makes site.inBody span body false false code).inBody
    exact made.moves
  | .signature _ _ _, _ => (Keeps.checkDeclaration site .signature).idle
  | .attribute _ kind entries, _ => (Keeps.defineEntries site kind.declaration entries
      fun target entry => .defineAttribute target kind entry.name).idle
  | .aliases _ entries, _ =>
    (Keeps.defineEntries site .aliases entries fun target entry => .defineAlias target entry).idle
  | .ivar _ _ _, _ => (Keeps.checkDeclaration site .ivar).idle
  | .include _ _, _ => (Keeps.checkDeclaration site .include).idle
  | .using _ _, _ => (Keeps.bind (fun _ => rfl) fun _ => Keeps.bind (fun _ => rfl) fun _ =>
      .failAll _).idle

theorem compileStmts_idle (site : Site) : ∀ (body : List Stmt) (returned warned : Bool),
    Stmt.anyRunsAtDeclaration body = false → Idle (compileStmts site returned warned #[] body)
  | [], _, _, _ => fun _ => ⟨rfl, rfl⟩
  | stmt :: rest, returned, warned, idle => by
    obtain ⟨first, others⟩ := Bool.or_eq_false_iff.1 idle
    have both (returned warned : Bool) : Idle (do
        let more ← compileStmt site stmt
        compileStmts site returned warned (#[] ++ more) rest) := by
      intro s
      obtain ⟨empty, kept⟩ := compileStmt_idle site stmt first s
      rw [Ensures.run_bind (Prod.ext empty rfl)]
      obtain ⟨last, keptOn⟩ := compileStmts_idle site rest returned warned others
        (compileStmt site stmt s).2
      exact ⟨last, keptOn.trans kept⟩
    have warns (span : Span) : Keeps (·.current) (Compile.warnUnreachable site span) := by
      unfold Compile.warnUnreachable
      split <;> exact fun _ => rfl
    rw [compileStmts]
    dsimp only
    split
    · exact (warns stmt.span).before fun _ => both _ _
    · exact both _ _

end

/-- The function of a namespace body that does nothing. -/
def idleBody (fullName file : String) (span : Span) : CompiledFunction where
  name := "<namespace: " ++ fullName ++ ">"
  code := #[Opcode.pushNil.byte, Opcode.ret.byte]
  location := ⟨file, span⟩
  lines := .ofCode (Code.plain span.ending .pushNil ++ Code.plain span.ending .ret)
  constants := [.nil]
  required := 0
  optional := 0
  upvalues := 0

/-- **To drop the body of a namespace loses nothing.** If no statement of the body does anything
when the declaration runs, the function of the body is dropped. Whatever it is compiled in and
whatever its name, and whether or not there is a namespace to open, it is the function that pushes
nil and returns, and that has no constant but nil and no variables. -/
theorem declareNamespace_idle (site : Site) (kind : NamespaceKind) (path : Path) (span : Span)
    (superclass : Option Path) (body : List Stmt) (idle : Stmt.anyRunsAtDeclaration body = false) :
    compileStmt site (.namespace span kind path superclass body) =
        declaring site kind path span body (fun _ _ _ => return #[]) ∧
      ∀ fullName legal s, (namespaceBody site kind fullName legal span body s).1 =
        idleBody fullName site.unit.options.file span := by
  refine ⟨?_, fun fullName legal s => ?_⟩
  · rw [compileStmt_namespace, idle]
    simp only [Bool.and_false]
    rfl
  · let inner := s.nested false (.fixed fullName true)
    obtain ⟨empty, kept⟩ :=
      compileStmts_idle (site.inNamespace fullName kind legal) body false false idle inner
    show Frame.finish (compileStmts _ false false #[] body inner).2.current _ _ span 0 0
      ((compileStmts _ false false #[] body inner).1 ++ _ ++ _) = _
    rw [empty, kept]
    rfl

/-- Members, a singleton block and a module, none of which does anything. -/
def idleStatements : List Stmt :=
  [.method .zero "m" [] [.ret .zero none], .ivar .zero "a" none,
    .singleton .zero [.attribute .zero .getter [⟨"b", none⟩]],
    .namespace .zero .module ⟨["M"], false⟩ none [.method .zero "f" [] []]]

/-- The path of the class `C` denotes another place in the unit as a whole than where it is
collected, so that there is nothing to open. -/
def idleUnit : Program :=
  let «open» (kind : NamespaceKind) (path : List String) (body : List Stmt) : Stmt :=
    .namespace .zero kind ⟨path, false⟩ none body
  .ofStatements [«open» .module ["B"] [], «open» .class ["D"] idleStatements,
    «open» .module ["A"] [«open» .class ["B", "C"] idleStatements, «open» .module ["B"] []]]

/-- Of the two classes, one is opened and the other is not. Both have the function that does
nothing. -/
theorem declareNamespace_idle_idleUnit :
    let options := Options.forFile "idle"
    let top : Site := ⟨idleUnit.unitInfo options .prelude, [rootName], .topLevel⟩
    let inA := top.inNamespace "Root::A" .module true
    let opened (site : Site) (path : List String) :=
      site.opened? .class (declarationTarget site.nesting site.unit.lookup ⟨path, false⟩).toOption
    let made (site : Site) (name : String) :=
      (namespaceBody site .class name true .zero idleStatements (.initial #[])).1
    (compileAgainst options .prelude .prelude idleUnit).1.function.isSome ∧
      Stmt.anyRunsAtDeclaration idleStatements = false ∧
      opened top ["D"] = some ("Root", "Root::D", "D") ∧ opened inA ["B", "C"] = none ∧
      made top "Root::D" = idleBody "Root::D" "idle" .zero ∧
      made inA "Root::A::B::C" = idleBody "Root::A::B::C" "idle" .zero :=
  ⟨by decide +kernel, by decide, by decide +kernel, by decide +kernel,
    (declareNamespace_idle _ _ ⟨["D"], false⟩ _ none _ (by decide)).2 _ _ _,
    (declareNamespace_idle _ _ ⟨["B", "C"], false⟩ _ none _ (by decide)).2 _ _ _⟩

end StackCode
