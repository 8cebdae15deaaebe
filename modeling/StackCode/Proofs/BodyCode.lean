import StackCode.Proofs.PatternCode

/-!
# The code of expressions and statements

Every expression and every statement is compiled to a piece of code for its text, and adds the
functions of its text (`compileExpr_makes`, `compileStmt_makes`). The theorems follow the mutual
recursion of the compiler, with one case for each form of the syntax; what a form does besides
compiling its parts has a rule of its own before them.
-/

namespace StackCode

/-- A step makes a piece for a part of a function's text, and defines some members. -/
abbrev Makes (here : Setting) (trace : Trace) (P : Prop) (c : Compile Code)
    (members : List Definition := []) : Prop :=
  Ensures here trace.nested members P c (Piece here trace.uses)

/-- A step puts a piece for a part of a function's text behind other code. -/
abbrev MakesBehind (here : Setting) (trace : Trace) (P : Prop) (code : Code) (c : Compile Code)
    (members : List Definition := []) : Prop :=
  Ensures here trace.nested members P c fun whole =>
    ∃ more, whole = code ++ more ∧ Piece here trace.uses more

namespace Ensures

variable {α : Type} {here : Setting} {ivars : IvarAccess} {pool : List Value} {declares : Bool}
  {nested : List Source} {members : List Definition} {P : Prop} {uses : List IvarUse}
  {trace : Trace}
variable {value : Compile Code} {body : Site → Compile Code} (site : Site) (name : String)
  (params : List Parameter) (declaration : Declaration) (target : DefinitionTarget) (span : Span)
  (inner : IvarAccess → Trace)

/-! ## Members -/

/-- A check decides how to go on. What the unit would do otherwise is never taken back, and does
not count. -/
theorem checked {β : Type} {Q : Bool → β → Prop} {next : Bool → Compile β}
    (nested : Bool → List Source) (members : Bool → List Definition)
    (rest : ∀ legal P, Ensures here (nested legal) (members legal) P (next legal) (Q legal)) :
    Ensures here (nested (site.context.permits declaration))
      (members (site.context.permits declaration)) P
        (Compile.checkDeclaration site declaration span >>= next)
          (Q (site.context.permits declaration)) := by
  refine (checkDeclaration site declaration span).quietBind fun legal => ?_
  by_cases same : legal = site.context.permits declaration
  · rw [← same]
    exact rest legal _
  · exact (rest legal _).absurd fun given => same (given.2.1.trans given.2.2.symm)

/-- The code that a step makes has some definitions. -/
abbrev Defines (here : Setting) (definitions : List Definition) (P : Prop)
    (c : Compile Code) : Prop :=
  Ensures here [] [] P c fun code => DefinedBy here.unit here.constants definitions code.instrs

theorem loadTarget :
    Ensures here [] [] P (Compile.loadTarget target span) fun code =>
      target.Pushed here.constants code.instrs := by
  refine quietBind (Q := fun code => ∃ i : UInt16, here.constants[i.toNat]? =
    some (.symbol target.fullName) ∧ code = .one span (.indexed .getConst i)) ?_ fun owner => ?_
  · exact (addConstant rfl span).quietBind fun i => pure fun given => ⟨i, given.2, rfl⟩
  · refine pure fun given => ?_
    obtain ⟨-, i, isName, rfl⟩ := given
    refine ⟨i, isName, ?_⟩
    cases target.singleton <;> rfl

theorem defineMethod {f : CompiledFunction} {source : Source}
    (matched : P → Matches here.unit source f) :
    Ensures here [] [(target, .method source)] P (Compile.defineMethod target source.name f span)
      fun _ => True := by
  refine inMembers rfl fun constants => (loadTarget target span).quietBind fun owner => ?_
  refine bindQuiet (loadsFunction span ?_) fun function => ?_
  · exact fun given => matched given.1
  refine (loads rfl span).quietBind fun name => pure fun given => ?_
  obtain ⟨⟨⟨isMatch, pushed⟩, i, single, isFunction⟩, j, single', isName⟩ := given
  simpa [single, single'] using DefinedBy.one pushed (.method (matched isMatch) isFunction isName)

theorem defineNamed {name : String} {member : Member} {op : PlainOp}
    (written : ∀ {unit constants} {i : Instr}, i.Loads constants (.symbol name) →
      member.Written unit constants [i, .plain op]) :
    Defines here [(target, member)] P (do
      let owner ← Compile.loadTarget target span
      let name ← Compile.loadSymbol name span
      return owner ++ name ++ Code.plain span op) := by
  refine (loadTarget target span).quietBind fun owner => (loads rfl span).quietBind fun name =>
    pure fun given => ?_
  obtain ⟨⟨-, pushed⟩, i, single, isName⟩ := given
  simpa [single] using DefinedBy.one pushed (written isName)

theorem defineAttribute (kind : AttributeKind) (name : String) (span : Span) :
    Defines here ((kind.members name).map (target, ·)) P
      (Compile.defineAttribute target kind name span) := by
  cases kind with
  | getter => exact defineNamed target span .getter
  | setter => exact defineNamed target span .setter
  | accessor =>
    refine (defineNamed target span .getter).quietBind fun getter =>
      (defineNamed target span .setter).quietBind fun setter => pure fun given => ?_
    simpa [AttributeKind.members] using given.1.2.append given.2

theorem defineAlias (entry : Alias) (span : Span) :
    Defines here [(target, .secondName entry.newName entry.oldName)] P
      (Compile.defineAlias target entry span) := by
  refine (loadTarget target span).quietBind fun owner => (loads rfl span).quietBind fun newName =>
    (loads rfl span).quietBind fun oldName => pure fun given => ?_
  obtain ⟨⟨⟨-, pushed⟩, i, single, isNew⟩, j, single', isOld⟩ := given
  simpa [single, single'] using DefinedBy.one pushed (.secondName isNew isOld)

theorem defineEntries {γ : Type} {step : DefinitionTarget → γ → Compile Code}
    {ofEntry : γ → List Member} (entries : List γ)
    (plain : ∀ entry, ∀ member ∈ ofEntry entry, member.source? = none)
    (each : ∀ target entry {here P}, Defines here ((ofEntry entry).map (target, ·)) P
      (step target entry)) :
    Ensures here [] (site.defines declaration (definitionsFor ofEntry entries)) P (do
      if ← Compile.checkDeclaration site declaration span then
        match site.definitionTarget? with
        | none => return
        | some target =>
          Compile.inMembers <| entries.foldlM (fun code entry =>
            return code ++ (← step target entry)) #[])
      fun _ => True := by
  rw [site.definitionTarget?_eq]
  refine checked (Q := fun _ _ => True) site declaration span (fun _ => [])
    (fun legal => definitionsOn (if legal then site.memberTarget? else none) _) fun legal P => ?_
  cases legal with
  | false => exact pure fun _ => trivial
  | true =>
    simp only [↓reduceIte]
    cases site.memberTarget? with
    | none => exact pure fun _ => trivial
    | some target =>
      exact inMembers (sourcesOf_definitionsFor plain entries target) fun _ =>
        foldCode (R := fun done code =>
          DefinedBy _ _ (definitionsFor ofEntry done target) code.instrs)
          .nil (fun done item code more isDone isMore => by
            simpa [definitionsFor] using isDone.append isMore) entries fun entry _ =>
              each target entry

theorem setImports (imports : Imports) (opens : here.declares = true) :
    Ensures here [] [] P (modify fun s => { s with imports }) fun _ => True :=
  modifyState (fun s => { Moves.refl s with
    imports := fun still => Bool.noConfusion (opens.symm.trans still) }) (fun _ => rfl) fun _ => rfl

theorem useImports (entries : List Using) (span : Span) (opens : here.declares = true := by rfl) :
    Ensures here [] [] P (Compile.useImports site entries span) fun _ => True :=
  get_bind fun _ => (setImports _ opens).quietBind fun _ => failAll _ span

theorem recordNamespace (record : NamespaceRecord) :
    Ensures here [] [] P (Compile.recordNamespace record) fun _ => True := by
  refine modifyState (fun s => ?_) (fun s => ?_) fun s => ?_ <;> split
  exacts [.refl s, { Moves.refl s with }, rfl, rfl, rfl, rfl]

/-! ## Parameters -/

theorem markSlot {slot : Option Nat} {next : Unit → Compile β} {Q : β → Prop}
    (rest : Ensures here nested members P (next ()) Q) :
    Ensures here nested members P (match slot with
      | some slot => do let r ← Compile.markInitialized slot; next r
      | _ => next ()) Q := by
  cases slot with
  | none => exact rest
  | some slot => exact (markInitialized slot).quietBind fun _ => rest.pre And.left

theorem declareParams (params : List Parameter) (seen : NameTable) (seenOptional : Bool)
    (slots : Array (Option Nat)) (opens : here.declares = true := by rfl) :
    Ensures here [] [] P (StackCode.declareParams seen seenOptional slots params) fun all =>
      ∃ more : List Nat, all = slots.toList ++ more.map some ∧ more.length = params.length := by
  induction params generalizing seen seenOptional slots P with
  | nil => exact pure fun _ => ⟨[], by simp, rfl⟩
  | cons param rest ih =>
    -- Behind the slot there is one way on, whether or not the name is repeated.
    have next (slot : Option Nat) (P : Prop) : Ensures here [] [] (P ∧ slot.isSome = true)
        (StackCode.declareParams (seen.insert param.name) (seenOptional || param.default.isSome)
          (slots.push slot) rest) fun all =>
        ∃ more : List Nat, all = slots.toList ++ more.map some ∧ more.length = rest.length + 1 := by
      refine (ih _ _ _).imp fun given all made => ?_
      obtain ⟨slot, rfl⟩ := Option.isSome_iff_exists.1 given.2
      obtain ⟨more, rfl, length⟩ := made
      exact ⟨slot :: more, by simp, by rw [List.length_cons, length]⟩
    unfold StackCode.declareParams
    refine failIf (branch ?_ ?_)
    · exact (declareHidden _ _ opens).quietBind fun slot => markSlot (failIf (next slot _))
    · exact (declareLocal _ _ _ opens).quietBind fun slot => markSlot (failIf (next slot _))

theorem defaultValue (slot : Nat) (span : Span)
    (valuePiece : Ensures here nested [] True value (Piece here uses)) :
    Ensures here nested [] P (StackCode.defaultValue slot span value)
      (Piece here uses) := by
  refine (indexedSilent .getLocal slot span rfl).quietBind fun argument => ?_
  refine valuePiece.given.bindQuiet fun value => ?_
  refine (indexedSilent .setLocal slot span rfl).quietBind fun store => ?_
  refine (jump _ _ span span).quietBind fun skip => pure fun given => ?_
  obtain ⟨⟨⟨⟨-, isArgument⟩, isValue⟩, isStore⟩, isSkip⟩ := given
  simpa [isArgument, isStore, isSkip] using isValue

/-! ## Declarations -/

theorem defineConstant (literal : Option Value) (valueSpan span : Span)
    (plain : ∀ v ∈ literal, v.function? = none ∧ uses = [] ∧ nested = [])
    (valuePiece : Ensures here nested [] True value (Piece here uses)) :
    Ensures here nested [] P
      (StackCode.defineConstant site name literal valueSpan span value) (Piece here uses) := by
  refine (checkDeclaration site .constant span).quietBind fun legal => branch ?_ ?_
  · refine (getConst site.fullName span).quietBind fun owner =>
      (loadSymbol name span).quietBind fun name => ?_
    cases literal with
    | none =>
      exact valuePiece.given.bindQuiet fun value => pure fun given => by
        simpa [given.1.1.2, given.1.2] using given.2
    | some literal =>
      obtain ⟨noFunction, rfl, rfl⟩ := plain literal rfl
      exact (loadValue noFunction valueSpan).quietBind fun value => pure fun given =>
        .of_silent (by simp [given])
  · exact valuePiece.given.bindQuiet fun value => pure fun given => by simpa using given.2

theorem recordOpened {β : Type} {Q : β → Prop} (legal : Bool)
    (opened : Option (String × String × String)) (kind : NamespaceKind) (span : Span)
    {next : Compile β} (rest : ∀ P, Ensures here nested members P next Q) :
    Ensures here nested members P
      (match (legal, opened) with
        | (true, some (parent, fullName, name)) => do
          Compile.recordNamespace ⟨fullName, parent, name, kind, span⟩
          next
        | _ => next) Q := by
  split
  · exact (recordNamespace _).quietBind fun _ => rest _
  · exact rest P

theorem declareNamespace (site : Site) (kind : NamespaceKind) (path : Path)
    (runs : Bool) (span : Span) (body : Site → Compile Code) (inner : String → Bool → Trace)
    (members : Site → List Definition)
    (makes : ∀ fullName legal pool, Makes ⟨site.unit, .fixed fullName true, pool, true⟩
      (inner fullName legal) True (body (site.inNamespace fullName kind legal))
      (members (site.inNamespace fullName kind legal))) :
    let target := (declarationTarget site.nesting site.unit.lookup path).toOption
    let fullName := (target.map Prod.snd).getD site.fullName
    let legal := site.context.permits (.namespace kind)
    Ensures ⟨site.unit, ivars, pool, declares⟩
      (if legal && (site.opened? kind target).isSome && runs then
        [(inner fullName legal).source ("<namespace: " ++ fullName ++ ">") span
          (.fixed fullName true)] else [])
      (members (site.inNamespace fullName kind legal)) P
      (StackCode.declareNamespace site kind path runs span body)
      (Piece ⟨site.unit, ivars, pool, declares⟩ []) := by
  intro target fullName legal
  refine checked (Q := fun _ => Piece ⟨site.unit, ivars, pool, declares⟩ []) site
    (.namespace kind) span
    (fun legal => if legal && (site.opened? kind target).isSome && runs then
      [(inner fullName legal).source ("<namespace: " ++ fullName ++ ">") span
        (.fixed fullName true)] else [])
    (fun legal => members (site.inNamespace fullName kind legal)) fun legal P => ?_
  refine recordOpened legal _ kind span fun P => ?_
  refine (inFunction false fun pool => (makes fullName legal pool).given).bindNested fun made => ?_
  dsimp only
  split
  · refine (getConst fullName span).quietBind fun owner => ?_
    refine (loadFunction span fun given => ?_).bindQuiet fun function =>
      pure fun given => .of_silent (by simp [given])
    exact Frame.matches_finish (by simpa using given.1.2.1) given.1.2.2 _ span _ 0 0
  · exact pure fun _ => .of_silent rfl

section

variable
  (makes : ∀ access pool, Makes ⟨site.unit, access, pool, true⟩ (inner access) True
    (body site.inBody))

include makes

theorem declareMethod :
    Ensures ⟨site.unit, ivars, pool, declares⟩ []
      (site.defines .method fun target =>
        [(target, .method ((inner target.ivars).source name span target.ivars))]) P
      (StackCode.declareMethod site name params span body) fun _ => True := by
  unfold StackCode.declareMethod
  rw [site.definitionTarget?_eq]
  refine checked (Q := fun _ _ => True) site .method span (fun _ => []) (fun legal =>
    definitionsOn (if legal then site.memberTarget? else none) _) fun legal P => ?_
  generalize (if legal then site.memberTarget? else none) = target
  refine get_bind fun s => ?_
  cases target with
  | none =>
    exact (inFunction false fun pool => (makes _ pool).given).quietBind fun made =>
      pure fun _ => trivial
  | some target =>
    refine (inFunction false fun pool => (makes _ pool).given).quietBind fun made => ?_
    refine defineMethod target span fun given => ?_
    exact Frame.matches_finish given.2.1 given.2.2 _ span _ _ _

theorem makeClosure :
    Ensures ⟨site.unit, ivars, pool, declares⟩ [(inner ivars).source "<closure>" span ivars] [] P
      (StackCode.makeClosure site params span body)
        (Piece ⟨site.unit, ivars, pool, declares⟩ []) := by
  refine accessBind (Q := fun ivars => Piece ⟨site.unit, ivars, pool, declares⟩ [])
    (fun ivars => [(inner ivars).source "<closure>" span ivars]) fun s => ?_
  generalize s.current.ivars = access
  refine (inFunction true fun pool => (makes access pool).given).bindNested fun made => ?_
  refine (addFunction span fun given => ?_).bindQuiet fun index =>
    pure fun _ => .of_silent rfl
  exact Frame.matches_finish given.2.1 given.2.2 _ span _ _ _

end

theorem singletonBlock (body : Site → Compile Code) (inner : Bool → Trace)
    (members : Site → List Definition)
    (makes : ∀ legal, Makes ⟨site.unit, ivars, pool, true⟩ (inner legal) True
      (body (site.within (.inSingleton site.singletonOwner legal)))
      (members (site.within (.inSingleton site.singletonOwner legal)))) :
    Makes ⟨site.unit, ivars, pool, declares⟩ (inner (site.context.permits .singleton)) P
      (StackCode.singletonBlock site span body)
      (members (site.within
        (.inSingleton site.singletonOwner (site.context.permits .singleton)))) :=
  checked (Q := fun legal => Piece ⟨site.unit, ivars, pool, declares⟩ (inner legal).uses) site
    .singleton span
    (fun legal => (inner legal).nested)
    (fun legal => members (site.within (.inSingleton site.singletonOwner legal))) fun legal _ =>
      inScope span (makes legal)

end Ensures

/-! ## Expressions and statements -/

open Ensures

theorem trace_of_staticLiteral {e : Expr} {value : Value}
    (literal : staticLiteral? e = some value) (site : Site)
    (ivars : IvarAccess) : value.function? = none ∧ e.trace site ivars = .empty := by
  unfold staticLiteral? at literal
  split at literal <;> cases literal <;> exact ⟨rfl, rfl⟩

section

variable {α : Type} {here : Setting} {nested : List Source} {members others : List Definition}
  {uses : List IvarUse} {trace first rest : Trace} {P : Prop} {c : Compile Code}
    {next : Code → Compile Code}
variable {site : Site} {params : List Parameter} {Q : α → Prop}

theorem Ensures.traced (made : Ensures here nested [] P c (Piece here uses))
    (sameUses : uses = trace.uses) (sameNested : nested = trace.nested) : Makes here trace P c := by
  subst sameUses sameNested
  exact made

theorem Ensures.inBody {body : List Stmt} {c : Compile α}
    (made : Ensures here nested (Stmt.allMembers site.inBody body) P c Q) :
    Ensures here nested [] P c Q :=
  Stmt.allMembers_inBody site body ▸ made

theorem Silently.makes (silently : Silently here P c) : Makes here .empty P c :=
  silently.imp fun _ _ silent => .of_silent silent

theorem Ensures.behind (makes : Makes here trace P c)
    (silently : ∀ code P, Silently here P (next code)) :
    Makes here trace P (do
      let code ← c
      let more ← next code
      return code ++ more) :=
  makes.bindQuiet fun code => (silently code _).quietBind fun more => pure fun given => by
    simpa [given.2] using given.1.2

theorem Ensures.operation (makes : Makes here trace P c) (span : Span) (op : PlainOp) :
    Makes here trace P (do return (← c) ++ Code.plain span op) :=
  makes.bindQuiet fun code => pure fun given => by simpa using given.2

theorem Ensures.operation₂ {a b : Compile Code} (left : Makes here first P a)
    (right : ∀ P, Makes here rest P b) (span : Span) (op : PlainOp) :
    Makes here (first ++ rest) P (do
      let left ← a
      let right ← b
      return left ++ right ++ Code.plain span op) :=
  left.bind fun left => (right _).bindQuiet fun right => pure fun given => by
    simpa using given.1.2.append given.2

theorem Ensures.makesNothing {step : Compile α} (ensures : Ensures here [] members P step Q) :
    Makes here .empty P (do let _ ← step; return #[]) members :=
  ensures.bindQuiet fun _ => pure fun _ => .of_silent rfl

theorem MakesBehind.of_bind {code : Code} (makes : Makes here first P c members)
    (behind : ∀ more, MakesBehind here rest (P ∧
      Piece here first.uses more) (code ++ more) (next more) others) :
    MakesBehind here (first ++ rest) P code (c >>= next) (members ++ others) := by
  refine makes.bind fun more => (behind more).imp fun given whole made => ?_
  obtain ⟨last, rfl, piece⟩ := made
  exact ⟨more ++ last, by rw [Array.append_assoc], by simpa using given.2.append piece⟩

theorem MakesBehind.makes (behind : MakesBehind here trace P #[] c members) :
    Makes here trace P c members := by
  refine behind.imp fun _ whole made => ?_
  obtain ⟨more, rfl, piece⟩ := made
  rwa [Array.empty_append]

/-- Every parameter has a slot. -/
def Slotted (params : List Parameter) (slots : List (Option Nat)) : Prop :=
  ∃ given : List Nat, slots = given.map some ∧ given.length = params.length

theorem Slotted.tail {param : Parameter} {params : List Parameter} {slot : Option Nat}
    {slots : List (Option Nat)} (slotted : Slotted (param :: params) (slot :: slots)) :
    Slotted params slots := by
  obtain ⟨given, same, length⟩ := slotted
  cases given with
  | nil => cases same
  | cons head tail => exact ⟨tail, (List.cons.inj same).2, Nat.succ.inj length⟩

theorem Slotted.not_nil {param : Parameter} : ¬Slotted (param :: params) [] := by
  rintro ⟨given, same, length⟩
  rw [← List.length_map some, ← same] at length
  cases length

theorem functionBody_makes {defaults : List (Option Nat) → Compile Code}
    {block : Code → Compile Code}
    (defaultsMade : ∀ slots, MakesBehind here first (Slotted params slots) #[]
      (defaults slots)) (blockMade : ∀ code P, MakesBehind here rest P code (block code))
    (opens : here.declares = true := by rfl) :
    Makes here (first ++ rest) P (do
      let slots ← declareParams .empty false #[] params
      let code ← defaults slots
      block code) := by
  refine (Ensures.declareParams params .empty false #[] opens).quietBind fun slots => ?_
  refine ((defaultsMade slots).makes.pre ?_).bind fun code => ?_
  · rintro ⟨-, given, rfl, length⟩
    exact ⟨given, rfl, length⟩
  · refine (blockMade code _).imp fun given whole made => ?_
    obtain ⟨more, rfl, piece⟩ := made
    simpa using given.2.append piece

theorem storeSubject {Q : Code → Prop} (slot : Option Nat) (span : Span) :
    (∀ store, Ensures here nested members (P ∧ Silent store) (next store) Q) →
    Ensures here nested members P (match slot with
      | some slot => do
        let store ← Compile.indexed .setLocal slot span
        next store
      | none => do
        let store ← Pure.pure #[]
        next store) Q := by
  intro rest
  cases slot with
  | none => exact (rest #[]).pre fun given => ⟨given, rfl⟩
  | some slot => exact (indexedSilent .setLocal slot span rfl).quietBind rest

theorem caseTest (pattern : Pattern) (slot : Option Nat) (span : Span)
    (opens : here.declares = true := by rfl) :
    Silently here P (match slot with
      | some slot => Compile.patternTest pattern slot false
      | none => Pure.pure (Code.plain span .pushFalse)) := by
  cases slot with
  | none => exact pure fun _ => rfl
  | some slot => exact patternTest pattern slot false opens

theorem warnLate {span : Span} {condition : Bool} {next : Compile α}
    (rest : Ensures here nested members P next Q) :
    Ensures here nested members P (do
      if condition then Compile.warnUnreachable site span
      next) Q := by
  refine branch ?_ rest
  exact (warnUnreachable site span).quietBind fun _ => rest.pre fun given => given.1

end

theorem block_last {site : Site} {span last : Span} {value : Expr}
    {returned warned : Bool} {code : Code} {ivars : IvarAccess} {P : Prop}
    (made : Makes ⟨site.unit, ivars, pool, true⟩ (value.trace site ivars) P
      (compileExpr site value)) :
    MakesBehind ⟨site.unit, ivars, pool, true⟩
      (Stmt.traces site ivars [.expression last value]) P code
      (compileBlock site span returned warned code [.expression last value]) := by
  rw [Stmt.traces, Stmt.traces, Stmt.trace, Trace.append_empty]
  exact warnLate (made.bindQuiet fun more => pure fun given => ⟨more, rfl, given.2⟩)

theorem block_next {site : Site} {span : Span} {stmt : Stmt} {rest : List Stmt}
    {returned warned : Bool} {code : Code} {ivars : IvarAccess} {P : Prop}
    (next : compileBlock site span returned warned code (stmt :: rest) = (do
      let isLate := returned && !warned && stmt.producesCode
      if isLate then Compile.warnUnreachable site stmt.span
      let more ← compileStmt site stmt
      compileBlock site span (returned || stmt.isReturn) (warned || isLate) (code ++ more) rest))
    (stmtMade : Makes ⟨site.unit, ivars, pool, true⟩ (stmt.trace site ivars) P
      (compileStmt site stmt)
      (stmt.members site))
    (restMade : ∀ returned warned code {P}, MakesBehind ⟨site.unit, ivars, pool, true⟩
      (Stmt.traces site ivars rest) P code (compileBlock site span returned warned code rest)
      (Stmt.allMembers site rest)) :
    MakesBehind ⟨site.unit, ivars, pool, true⟩ (Stmt.traces site ivars (stmt :: rest)) P code
      (compileBlock site span returned warned code (stmt :: rest))
      (Stmt.allMembers site (stmt :: rest)) := by
  rw [next]
  exact warnLate (MakesBehind.of_bind stmtMade fun more => restMade _ _ (code ++ more))

mutual

/-- **The code of an expression is a piece for its text.** -/
theorem compileExpr_makes (site : Site) {pool : List Value} {declares : Bool} :
    ∀ (e : Expr) {ivars : IvarAccess} {P : Prop},
    Makes ⟨site.unit, ivars, pool, declares⟩ (e.trace site ivars) P (compileExpr site e)
  | .literal span value, _, _ => (loadLiteral value span).makes
  | .self span, _, _ => pure fun _ => .of_silent rfl
  | .sequence span .list items, _, _ =>
    (compileExprs_makes site items #[]).makes.behind fun _ _ => indexedSilent .newList _ span rfl
  | .sequence span .tuple items, _, _ =>
    (compileExprs_makes site items #[]).makes.behind fun _ _ => indexedSilent .newTuple _ span rfl
  | .map span entries, _, _ =>
    (compileEntries_makes site entries #[]).makes.behind fun _ _ => indexedSilent .newMap _ span rfl
  | .local span name, _, _ => (getVariable name span).makes
  | .ivar span name, _, _ => getIvar site name span
  | .constant span path, _, _ => (getPath site path span).makes
  | .assign span (.local name) operator value, _, _ =>
    assignVariable name operator span (compileExpr_makes site value)
  | .assign span (.ivar name) none value, _, _ => by
    rw [Expr.trace]
    exact (assignIvar site name span (compileExpr_makes site value)).traced rfl (by simp)
  | .assign span (.ivar name) (some operator) value, _, _ => by
    rw [Expr.trace]
    exact (assignIvarCompound site name operator span (compileExpr_makes site value)).traced
      rfl (by simp)
  | .binary span operator left right, _, _ =>
    (compileExpr_makes site left).operation₂ (fun _ => compileExpr_makes site right) span _
  | .unary span operator operand, _, _ =>
    (compileExpr_makes site operand).operation span _
  | .logical span .and left right, _, _ =>
    shortCircuit _ span (compileExpr_makes site left) (compileExpr_makes site right)
  | .logical span .or left right, _, _ =>
    shortCircuit _ span (compileExpr_makes site left) (compileExpr_makes site right)
  | .block span body, _, _ =>
    inScope span (compileBlock_makes site.inBody span body false false #[]).makes.inBody
  | .conditional span condition thenBranch elseBranch, _, _ => by
    rw [Expr.trace, Trace.append_assoc]
    exact conditional span (compileExpr_makes site condition)
      (inScope span (compileBlock_makes site.inBody span thenBranch false false #[]).makes.inBody)
      (compileElse_makes site span elseBranch)
  | .switch span subject cases elseBranch, ivars, _ => by
    rw [Expr.trace, Trace.append_assoc]
    refine inScope span ((compileExpr_makes site subject).bind fun value => ?_)
    refine (declareHidden "switch subject" span).quietBind fun slot => ?_
    refine storeSubject slot span fun store => ?_
    refine (compileCases_makes site slot cases #[]).bind fun arms =>
      (compileElse_makes site span elseBranch).bindQuiet fun elseBranch => ?_
    refine (switch span arms elseBranch).quietBind fun branches => pure fun given => ?_
    obtain ⟨⟨⟨⟨⟨⟨-, isValue⟩, -⟩, isStore⟩, more, rfl, isArms⟩, isElse⟩, isBranches⟩ := given
    simpa [isStore, isBranches] using List.rel_append isValue (List.rel_append isArms isElse)
  | .closure span params body, _, _ => by
    rw [Expr.trace, compileExpr]
    refine Ensures.makeClosure site params span (fun access =>
      Expr.defaultTraces site.inBody access params ++ Stmt.traces site.inBody access body)
      fun access _ => ?_
    exact functionBody_makes
      (fun slots => compileDefaults_makes site.inBody params slots #[]) fun code _ =>
      (compileBlock_makes site.inBody span body false false code).inBody
  | .methodCall span receiver name arguments, _, _ => by
    refine (compileExpr_makes site receiver).bind fun receiver => ?_
    refine (compileExprs_makes site arguments receiver).bindQuiet fun code => ?_
    refine (send .method name _ span).quietBind fun call => pure fun given => ?_
    obtain ⟨⟨⟨-, isReceiver⟩, more, rfl, isMore⟩, silent⟩ := given
    simpa [Expr.trace, silent] using isReceiver.append isMore
  | .selfCall span name arguments, _, _ =>
    (compileExprs_makes site arguments #[]).makes.behind fun _ _ => send .self name _ span
  | .call span callee arguments, _, _ => by
    refine (compileExpr_makes site callee).bind fun callee => ?_
    refine (compileExprs_makes site arguments callee).bindQuiet fun code => ?_
    refine (argumentCount _ span).quietBind fun count => pure fun given => ?_
    obtain ⟨⟨⟨-, isCallee⟩, more, rfl, isMore⟩, -⟩ := given
    simpa [Expr.trace, Instr.ivar?] using isCallee.append isMore
  | .subscript span receiver index, _, _ =>
    (compileExpr_makes site receiver).operation₂ (fun _ => compileExpr_makes site index) span _
  | .new span className arguments, _, _ => by
    refine (getPath site className span).quietBind fun className => ?_
    refine (compileExprs_makes site arguments className).bindQuiet fun code => ?_
    refine (argumentCount _ span).quietBind fun count => pure fun given => ?_
    obtain ⟨⟨⟨-, silent⟩, more, rfl, isMore⟩, -⟩ := given
    simpa [Expr.trace, silent, Instr.ivar?] using isMore
  | .raise span error, _, _ => (compileExpr_makes site error).operation span _

theorem compileExprs_makes (site : Site) {pool : List Value} {declares : Bool} :
    ∀ (items : List Expr) (code : Code) {ivars : IvarAccess} {P : Prop},
      MakesBehind ⟨site.unit, ivars, pool, declares⟩ (Expr.traces site ivars items) P code
        (compileExprs site code items)
  | [], code, _, _ => pure fun _ => ⟨#[], by simp, .of_silent rfl⟩
  | e :: rest, code, _, _ =>
    .of_bind (compileExpr_makes site e) fun more => compileExprs_makes site rest (code ++ more)

theorem compileEntries_makes (site : Site) {pool : List Value} {declares : Bool} :
    ∀ (entries : List (Expr × Expr)) (code : Code) {ivars : IvarAccess} {P : Prop},
      MakesBehind ⟨site.unit, ivars, pool, declares⟩ (Expr.entryTraces site ivars entries) P code
        (compileEntries site code entries)
  | [], code, _, _ => pure fun _ => ⟨#[], by simp, .of_silent rfl⟩
  | (key, value) :: rest, code, _, _ => by
    rw [Expr.entryTraces, Trace.append_assoc]
    refine .of_bind (compileExpr_makes site key) fun more => ?_
    exact .of_bind (compileExpr_makes site value) fun last =>
      compileEntries_makes site rest (code ++ more ++ last)

theorem compileElse_makes (site : Site) {pool : List Value} {declares : Bool} (span : Span) :
    ∀ (body : Option (List Stmt)) {ivars : IvarAccess} {P : Prop},
      Makes ⟨site.unit, ivars, pool, declares⟩ (Stmt.elseTrace site ivars body) P
        (compileElse site span body)
  | none, _, _ => pure fun _ => .of_silent rfl
  | some body, _, _ =>
    inScope span (compileBlock_makes site.inBody span body false false #[]).makes.inBody

theorem compileCases_makes (site : Site) {pool : List Value} {declares : Bool} (slot : Option Nat) :
    ∀ (cases : List SwitchCase) (arms : Array Compile.Arm) {ivars : IvarAccess} {P : Prop},
      Ensures ⟨site.unit, ivars, pool, declares⟩ (Stmt.caseTraces site ivars cases).nested
        [] P (compileCases site slot arms cases) fun all =>
          ∃ more, all = arms.toList ++ more ∧
            List.Forall₂ (site.unit.Reaches pool ivars) (Stmt.caseTraces site ivars cases).uses
              (ivarsOfArms more)
  | [], arms, _, _ => pure fun _ => ⟨[], by simp, .nil⟩
  | ⟨pattern, body, span⟩ :: rest, arms, _, _ => by
    refine (arm span (caseTest pattern slot span) (compileBlock_makes site.inBody span body false
      false #[]).makes.inBody).bind
      fun next => (compileCases_makes site slot rest (arms.push next)).imp fun given all made => ?_
    obtain ⟨more, rfl, isArms⟩ := made
    exact ⟨next :: more, by simp, List.rel_append given.2 isArms⟩

theorem compileDefaults_makes (site : Site) {pool : List Value} :
    ∀ (params : List Parameter) (slots : List (Option Nat)) (code : Code) {ivars : IvarAccess},
      MakesBehind ⟨site.unit, ivars, pool, true⟩ (Expr.defaultTraces site ivars params)
        (Slotted params slots) code
        (compileDefaults site code params slots)
  | [], slots, code, _ => by
    exact pure fun _ => ⟨#[], by simp, .of_silent rfl⟩
  | ⟨_, some value, _, span⟩ :: rest, some slot :: slots, code, _ => by
    refine .of_bind (Ensures.defaultValue slot span (compileExpr_makes site value)) fun more => ?_
    exact (compileDefaults_makes site rest slots (code ++ more)).pre fun given => given.1.tail
  | ⟨_, none, _, span⟩ :: rest, slot :: slots, code, _ => by
    exact (compileDefaults_makes site rest slots code).pre Slotted.tail
  | ⟨_, some value, _, span⟩ :: rest, none :: slots, code, ivars => by
    have others : MakesBehind ⟨site.unit, ivars, pool, true⟩ (Expr.defaultTraces site ivars rest)
      (Slotted rest slots) code
        (compileDefaults site code rest slots) := compileDefaults_makes site rest slots code
    refine (others.pre Slotted.tail).absurd ?_
    rintro ⟨_ | _, same, -⟩ <;> cases same
  | ⟨_, none, _, _⟩ :: rest, [], code, _ =>
    Ensures.absurd (Ensures.pure (Q := fun _ => True) fun _ => trivial) Slotted.not_nil
  | ⟨_, some _, _, _⟩ :: rest, [], code, _ =>
    Ensures.absurd (Ensures.pure (Q := fun _ => True) fun _ => trivial) Slotted.not_nil

theorem compileBlock_makes (site : Site) {pool : List Value} (span : Span) :
    ∀ (stmts : List Stmt) (returned warned : Bool) (code : Code) {ivars : IvarAccess} {P : Prop},
      MakesBehind ⟨site.unit, ivars, pool, true⟩ (Stmt.traces site ivars stmts) P code
        (compileBlock site span returned warned code stmts) (Stmt.allMembers site stmts)
  | [], returned, warned, code, _, _ => pure fun _ => ⟨_, rfl, .of_silent rfl⟩
  | stmt :: rest, returned, warned, code, ivars, P => by
    cases stmt with
    | expression last value =>
      cases rest with
      | nil => exact block_last (compileExpr_makes site value)
      | cons next rest =>
        exact block_next rfl (compileStmt_makes site _) fun _ _ _ =>
          compileBlock_makes site span _ _ _ _
    | _ =>
      exact block_next rfl (compileStmt_makes site _) fun _ _ _ =>
        compileBlock_makes site span _ _ _ _

theorem compileStmts_makes (site : Site) {pool : List Value} :
    ∀ (stmts : List Stmt) (returned warned : Bool) (code : Code) {ivars : IvarAccess} {P : Prop},
      MakesBehind ⟨site.unit, ivars, pool, true⟩ (Stmt.traces site ivars stmts) P code
        (compileStmts site returned warned code stmts) (Stmt.allMembers site stmts)
  | [], returned, warned, code, _, _ => pure fun _ => ⟨#[], by simp, .of_silent rfl⟩
  | stmt :: rest, returned, warned, code, _, _ => by
    refine warnLate (MakesBehind.of_bind (compileStmt_makes site stmt) fun more => ?_)
    exact compileStmts_makes site rest _ _ (code ++ more)

theorem compileOptional_makes (site : Site) {pool : List Value} (span : Span) :
    ∀ (value : Option Expr) {ivars : IvarAccess} {P : Prop},
      Makes ⟨site.unit, ivars, pool, true⟩ (Expr.optionalTrace site ivars value) P
        (compileOptional site span value)
  | none, _, _ => pure fun _ => .of_silent rfl
  | some value, _, _ => compileExpr_makes site value

theorem compileStmt_makes (site : Site) {pool : List Value} :
    ∀ (stmt : Stmt) {ivars : IvarAccess} {P : Prop},
    Makes ⟨site.unit, ivars, pool, true⟩ (stmt.trace site ivars) P (compileStmt site stmt)
      (stmt.members site)
  | .expression span value, _, _ => by
    rw [Stmt.trace]
    refine (compileExpr_makes site value).bindQuiet fun code => branch ?_ ?_
    · exact (warnUnused site _).quietBind fun _ => pure fun given => by simpa using given.1.2
    · exact pure fun given => by simpa using given.2
  | .ret span value, _, _ =>
    (compileOptional_makes site span value).operation span _
  | .loop span condition body, _, _ =>
    loop span (compileExpr_makes site condition)
      (inScope span (compileStmts_makes site.inBody body false false #[]).makes.inBody)
  | .variable span name mutable _ none, _, _ =>
    (declareLocal name mutable span).makesNothing
  | .variable span name mutable _ (some initializer), _, _ =>
    (compileExpr_makes site initializer).behind fun _ _ => bindLocal name mutable span
  | .patternVariable span pattern mutable initializer, _, _ =>
    patternDeclaration pattern mutable span (compileExpr_makes site initializer)
  | .constant span name _ value, ivars, _ => by
    refine Ensures.defineConstant site name _ value.span span (fun literal isLiteral => ?_)
      (compileExpr_makes site value)
    obtain ⟨noFunction, silent⟩ := trace_of_staticLiteral isLiteral site ivars
    rw [Stmt.trace, silent]
    exact ⟨noFunction, rfl, rfl⟩
  | .namespace span kind path _ body, _, _ => by
    rw [Stmt.trace, compileStmt]
    exact Ensures.declareNamespace site kind path _ span (fun site =>
      compileStmts site false false #[] body)
      (fun fullName legal => Stmt.traces (site.inNamespace fullName kind legal)
        (.fixed fullName true) body) (Stmt.allMembers · body)
      fun fullName legal _ =>
        (compileStmts_makes (site.inNamespace fullName kind legal) body false false #[]).makes
  | .singleton span body, ivars, _ => by
    rw [Stmt.trace, compileStmt]
    exact Ensures.singletonBlock site span (fun site => compileStmts site false false #[] body)
      (fun legal => Stmt.traces (site.within (.inSingleton site.singletonOwner legal)) ivars body)
      (Stmt.allMembers · body) fun legal =>
        (compileStmts_makes (site.within (.inSingleton site.singletonOwner legal)) body false
          false #[]).makes
  | .method span name params body, _, _ => by
    rw [Stmt.trace, compileStmt]
    refine Ensures.bindQuiet (Ensures.declareMethod site name params span (fun access =>
      Expr.defaultTraces site.inBody access params ++ Stmt.traces site.inBody access body)
        fun access _ => ?_) fun _ => ?_
    · exact functionBody_makes (fun slots => compileDefaults_makes site.inBody params slots
        #[]) fun code _ =>
        (compileBlock_makes site.inBody span body false false code).inBody
    · exact pure fun _ => .of_silent rfl
  | .signature span _ _, _, _ => (checkDeclaration site .signature span).makesNothing
  | .attribute span kind entries, _, _ =>
    (defineEntries site kind.declaration span entries (fun _ => kind.source?_members _)
      fun target entry => defineAttribute target kind entry.name span).makesNothing
  | .aliases span entries, _, _ =>
    (defineEntries site .aliases span entries (by simp [Member.source?]) fun target entry =>
      defineAlias target entry span).makesNothing
  | .ivar span _ _, _, _ => (checkDeclaration site .ivar span).makesNothing
  | .include span _, _, _ => (checkDeclaration site .include span).makesNothing
  | .using span entries, _, _ => (useImports site entries span).makesNothing

end

end StackCode
