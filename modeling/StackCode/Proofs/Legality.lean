import StackCode.Compile.Member

/-!
# Where declarations stand

A text is walked through once, each declaration before those in it, and the walk notes the construct
that each one stands in (`Program.occurrences`). In the body of a namespace or singleton block that
is illegal itself nothing is legal.

Only the check of a declaration against its context reports an illegal one (`Reports`). Whatever
else fails does so for another reason, which is what `Legal` says of a result.
-/

namespace StackCode

variable {α β : Type}

/-! ## Declarations of a text -/

/-- A declaration, with the construct whose body it stands in. -/
structure Occurrence where
  declaration : Declaration
  context : Context
  span : Span

/-- The reports of the declarations that may not stand where they do. -/
def illegalReports (found : List Occurrence) : List Issue :=
  (found.filter fun o => !o.context.permits o.declaration).map fun o =>
    .failure (.illegalConstruct o.declaration o.context) o.span

/-- A singleton block that stands in a construct. -/
def Context.inBlock (c : Context) : Context :=
  let owner :=
    match c with
    | .inNamespace kind _ => kind
    | .inSingleton owner _ => owner
    | .topLevel => .class
    | .inBody => .class
  .inSingleton owner (c.permits .singleton)

mutual

/-- The declarations in an expression. -/
def Expr.occurrences : Expr → List Occurrence
  | .literal _ _ => []
  | .self _ => []
  | .sequence _ _ items => Expr.allOccurrences items
  | .map _ entries => Expr.entryOccurrences entries
  | .local _ _ => []
  | .ivar _ _ => []
  | .constant _ _ => []
  | .assign _ _ _ value => value.occurrences
  | .binary _ _ left right => left.occurrences ++ right.occurrences
  | .unary _ _ operand => operand.occurrences
  | .logical _ _ left right => left.occurrences ++ right.occurrences
  | .block _ body => Stmt.allOccurrences .inBody body
  | .conditional _ condition thenBranch elseBranch =>
    condition.occurrences ++
      (Stmt.allOccurrences .inBody thenBranch ++ Stmt.elseOccurrences elseBranch)
  | .switch _ subject cases elseBranch =>
    subject.occurrences ++ (Stmt.caseOccurrences cases ++ Stmt.elseOccurrences elseBranch)
  | .closure _ params body => Expr.defaultOccurrences params ++ Stmt.allOccurrences .inBody body
  | .methodCall _ receiver _ arguments => receiver.occurrences ++ Expr.allOccurrences arguments
  | .selfCall _ _ arguments => Expr.allOccurrences arguments
  | .call _ callee arguments => callee.occurrences ++ Expr.allOccurrences arguments
  | .subscript _ receiver index => receiver.occurrences ++ index.occurrences
  | .new _ _ arguments => Expr.allOccurrences arguments
  | .raise _ error => error.occurrences

/-- Those in expressions. -/
def Expr.allOccurrences : List Expr → List Occurrence
  | [] => []
  | e :: rest => e.occurrences ++ Expr.allOccurrences rest

/-- Those in the entries of a map. -/
def Expr.entryOccurrences : List (Expr × Expr) → List Occurrence
  | [] => []
  | (key, value) :: rest => key.occurrences ++ (value.occurrences ++ Expr.entryOccurrences rest)

/-- Those in the defaults of parameters. -/
def Expr.defaultOccurrences : List Parameter → List Occurrence
  | [] => []
  | ⟨_, some value, _, _⟩ :: rest => value.occurrences ++ Expr.defaultOccurrences rest
  | ⟨_, none, _, _⟩ :: rest => Expr.defaultOccurrences rest

/-- Those in a value that may be missing. -/
def Expr.optionalOccurrences : Option Expr → List Occurrence
  | none => []
  | some value => value.occurrences

/-- Those in a last branch. -/
def Stmt.elseOccurrences : Option (List Stmt) → List Occurrence
  | none => []
  | some body => Stmt.allOccurrences .inBody body

/-- Those in the cases of a switch. -/
def Stmt.caseOccurrences : List SwitchCase → List Occurrence
  | [] => []
  | ⟨_, body, _⟩ :: rest => Stmt.allOccurrences .inBody body ++ Stmt.caseOccurrences rest

/-- Those in statements. -/
def Stmt.allOccurrences (c : Context) : List Stmt → List Occurrence
  | [] => []
  | stmt :: rest => stmt.occurrences c ++ Stmt.allOccurrences c rest

/-- The declarations in a statement that stands in a context, with itself. -/
def Stmt.occurrences (c : Context) : Stmt → List Occurrence
  | .expression _ value => value.occurrences
  | .ret _ value => Expr.optionalOccurrences value
  | .loop _ condition body => condition.occurrences ++ Stmt.allOccurrences .inBody body
  | .variable _ _ _ _ initializer => Expr.optionalOccurrences initializer
  | .patternVariable _ _ _ initializer => initializer.occurrences
  | .constant span _ _ value => ⟨.constant, c, span⟩ :: value.occurrences
  | .namespace span kind _ _ body => ⟨.namespace kind, c, span⟩ ::
    Stmt.allOccurrences (.inNamespace kind (c.permits (.namespace kind))) body
  | .singleton span body => ⟨.singleton, c, span⟩ :: Stmt.allOccurrences c.inBlock body
  | .method span _ params body => ⟨.method, c, span⟩ ::
    (Expr.defaultOccurrences params ++ Stmt.allOccurrences .inBody body)
  | .signature span _ _ => [⟨.signature, c, span⟩]
  | .attribute span kind _ => [⟨kind.declaration, c, span⟩]
  | .aliases span _ => [⟨.aliases, c, span⟩]
  | .ivar span _ _ => [⟨.ivar, c, span⟩]
  | .include span _ => [⟨.include, c, span⟩]
  | .using _ _ => []

end

/-- The parameters that got a slot. -/
def placed : List Parameter → List (Option Nat) → List Parameter
  | param :: params, some _ :: slots => param :: placed params slots
  | _ :: params, none :: slots => placed params slots
  | _, _ => []

/-- The declarations of a unit. -/
def Program.occurrences (program : Program) : List Occurrence :=
  Stmt.allOccurrences .topLevel program.statements

/-! ## Reports -/

/-- Whether an illegal declaration is reported. -/
def Problem.isIllegal : Problem → Bool
  | .failure (.illegalConstruct _ _) => true
  | _ => false

/-- The same for a failure. -/
abbrev Failure.isIllegal (f : Failure) : Bool := (Problem.failure f).isIllegal

/-- The reports of illegal declarations. -/
def illegalIn (issues : Array Issue) : List Issue := issues.toList.filter (·.problem.isIllegal)

/-- Some function has run out of slots for its variables. -/
def Full (issues : Array Issue) : Prop := ∃ issue ∈ issues, issue.problem = .failure .tooManyLocals

theorem Full.push {issues : Array Issue} (full : Full issues) (issue : Issue) :
    Full (issues.push issue) :=
  full.imp fun _ is => ⟨Array.mem_push.mpr (.inl is.1), is.2⟩

/-- Issues were added that are not about illegal declarations. -/
inductive Continues (issues : Array Issue) : Array Issue → Prop where
  | refl : Continues issues issues
  | push {issues' : Array Issue} (earlier : Continues issues issues') {issue : Issue}
    (legal : issue.problem.isIllegal = false) : Continues issues (issues'.push issue)

namespace Continues

variable {issues issues' issues'' : Array Issue}

theorem trans (first : Continues issues issues') (second : Continues issues' issues'') :
    Continues issues issues'' := by
  induction second with
  | refl => exact first
  | push _ legal ih => exact ih.push legal

theorem full (continues : Continues issues issues') (full : Full issues) : Full issues' := by
  induction continues with
  | refl => exact full
  | push _ _ ih => exact ih.push _

theorem illegalIn_eq (continues : Continues issues issues') :
    illegalIn issues' = illegalIn issues := by
  induction continues with
  | refl => rfl
  | push _ legal ih =>
    rw [← ih, illegalIn, Array.toList_push, List.filter_append]
    simp [illegalIn, legal]

end Continues

/-- A step reports the illegal ones of some declarations and no others, unless a function runs out
of slots. It begins with scopes of some kind. -/
structure ReportsFrom (start : ScopeStack → Prop) (found : List Occurrence) (m : Compile α) :
    Prop where
  full : ∀ s, Full s.issues → Full (m s).2.issues
  told : ∀ s, start s.current.scopes → ¬Full (m s).2.issues →
    illegalIn (m s).2.issues = illegalIn s.issues ++ illegalReports found

/-- The same from every start. -/
abbrev Reports (found : List Occurrence) (m : Compile α) : Prop :=
  ReportsFrom (fun _ => True) found m

namespace ReportsFrom

variable {found found' : List Occurrence} {m : Compile α} {next : α → Compile β}

theorem quiet (step : ∀ s, Continues s.issues (m s).2.issues) : Reports [] m :=
  ⟨fun s => (step s).full, fun s _ _ => by simp [(step s).illegalIn_eq, illegalReports]⟩

/-- Two steps report one after the other. What the second one reports may depend on what the first
one yields. -/
theorem follow {start : ScopeStack → Prop} {w : α → List Occurrence}
    (first : ReportsFrom start found m)
    (rest : ∀ s, Reports (w (m s).1) (next (m s).1))
    (known : ∀ s, start s.current.scopes → ¬Full (m s).2.issues → w (m s).1 = found') :
    ReportsFrom start (found ++ found') (m >>= next) := by
  refine ⟨fun s full => (rest s).full _ (first.full s full), fun s starts fits => ?_⟩
  have early : ¬Full (m s).2.issues := fun full => fits ((rest s).full _ full)
  have both : illegalReports (found ++ found') = illegalReports found ++ illegalReports found' := by
    simp [illegalReports]
  rw [both, ← List.append_assoc, ← first.told s starts early, ← known s starts early]
  exact (rest s).told _ trivial fits

end ReportsFrom

theorem reports_checkDeclaration (site : Site) (declaration : Declaration) (span : Span) :
    Reports [⟨declaration, site.context, span⟩]
      (Compile.checkDeclaration site declaration span) := by
  unfold Compile.checkDeclaration
  split
  · rename_i legal
    exact ⟨fun _ => id, fun s _ _ => by simp [illegalReports, legal]; rfl⟩
  · rename_i illegal
    refine ⟨fun s full => full.push _, fun s _ _ => ?_⟩
    show illegalIn (s.issues.push _) = _
    simp [illegalIn, illegalReports, illegal]
    rfl

theorem checkDeclaration_fst (site : Site) (declaration : Declaration) (span : Span)
    (s : CompileState) :
    (Compile.checkDeclaration site declaration span s).1 = site.context.permits declaration := by
  unfold Compile.checkDeclaration
  split
  · rename_i legal
    exact legal.symm
  · rename_i illegal
    exact (Bool.eq_false_iff.mpr illegal).symm

/-! ## Results -/

/-- A result that is no failure about an illegal declaration. -/
def Legal (result : Except Failure α) : Prop :=
  ∀ failure, result = .error failure → failure.isIllegal = false

namespace Legal

theorem ok (value : α) : Legal (.ok value) := nofun

theorem error {failure : Failure} (legal : failure.isIllegal = false) :
    Legal (.error failure : Except Failure α) := by
  rintro _ ⟨⟩
  exact legal

theorem bind {result : Except Failure α} {next : α → Except Failure β} (first : Legal result)
    (rest : ∀ value, Legal (next value)) : Legal (result >>= next) := by
  cases result with
  | ok value => exact rest value
  | error failure => exact error (first failure rfl)

end Legal

theorem ScopeStack.legal_allocate (s : ScopeStack) (name : String) (mutable hidden : Bool) :
    Legal (s.allocate name mutable hidden) := by
  unfold ScopeStack.allocate
  dsimp only
  split
  · exact .error rfl
  · exact .ok _

theorem ScopeStack.legal_declare (s : ScopeStack) (name : String) (mutable : Bool) :
    Legal (s.declare name mutable) := by
  unfold ScopeStack.declare
  split
  · exact s.legal_allocate name mutable false
  · split
    · exact .error rfl
    · exact s.legal_allocate name mutable false

theorem Pool.legal_add (p : Pool) (value : Value) : Legal (p.add value).1 := by
  unfold Pool.add
  split
  · exact .ok _
  · split
    · exact .error rfl
    · exact .ok _

section Paths

variable (imports : Imports) (nesting : List String) (lookup : Lookup) (path : Path) (head : String)

theorem Imports.legal_ofFrames (frames : List ImportFrame) :
    Legal (ofFrames lookup head frames) := by
  induction frames with
  | nil => exact .ok _
  | cons frame rest ih =>
    unfold ofFrames
    split
    · exact ih
    · unfold ofFrame
      split
      · exact .ok _
      · split
        · exact .ok _
        · exact .ok _
        · exact .error rfl

theorem legal_resolve : Legal (resolve imports nesting lookup path) := by
  unfold resolve
  split
  · exact .ok _
  · split
    · cases descend lookup _ _ with
      | some fullName => exact .ok _
      | none => exact .error rfl
    · refine Legal.bind ((Imports.legal_ofFrames lookup _ _).bind fun target => ?_) fun found => ?_
      · cases target <;> exact .ok _
      · cases found with
        | some fullName => exact .ok _
        | none => exact .error rfl

theorem legal_resolveNamespace : Legal (resolveNamespace imports nesting lookup path) := by
  refine (legal_resolve imports nesting lookup path).bind fun fullName => ?_
  split
  · exact .ok _
  · exact .error rfl

theorem legal_declarationTarget : Legal (declarationTarget nesting lookup path) := by
  unfold declarationTarget
  split
  · exact .error rfl
  · split
    · exact .ok _
    · exact (legal_resolveNamespace .empty nesting lookup _).bind fun _ => .ok _

theorem Imports.legal_use (entries : List Using) :
    ∀ failure ∈ (Imports.use nesting lookup entries imports).2, failure.isIllegal = false := by
  induction entries generalizing imports with
  | nil => simp [Imports.use]
  | cons entry rest ih =>
    unfold Imports.use
    dsimp only
    split
    · exact ih _
    · rename_i failure failed
      refine List.forall_mem_cons.mpr ⟨?_, ih imports⟩
      revert failed
      refine (?_ : Legal _) failure
      cases entry with
      | constant path newName =>
        exact (legal_resolve imports nesting lookup path).bind fun _ => .ok _
      | all path => exact (legal_resolveNamespace imports nesting lookup path).bind fun _ => .ok _

end Paths

theorem Frame.legal_capture (frame : Frame) (name : String) (outer : Variable) :
    Legal (frame.capture name outer).1 := by
  unfold Frame.capture CaptureList.capture
  split
  · exact .ok _
  · rename_i failed
    split at failed
    · cases failed
    · split at failed
      · cases failed
        exact .error rfl
      · cases failed

theorem legal_findUpvalue (name : String) (frame : Frame) (outer : List Frame) :
    Legal (findUpvalue name frame outer).1 := by
  induction outer generalizing frame with
  | nil => exact .ok _
  | cons parent outer ih =>
    unfold findUpvalue
    split
    · split
      · exact frame.legal_capture name _
      · have further := ih parent
        split
        · exact frame.legal_capture name _
        · rename_i found
          rwa [found] at further
    · exact .ok _

end StackCode
