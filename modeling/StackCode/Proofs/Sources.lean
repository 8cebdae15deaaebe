import StackCode.Compile.Unit

/-!
# The functions of a source text

A unit is compiled to a tree of functions. This is that tree as the source text has it, with
nothing of how it is compiled: which functions there are, how each reaches instance variables,
and which instance variables it uses, in the order in which the uses are evaluated. A use in a
nested function belongs to that function.
-/

namespace StackCode

/-- A use of an instance variable in the text. -/
structure IvarUse where
  name : String
  writes : Bool
deriving DecidableEq, Repr

/-- A function of the text. -/
structure Source where
  name : String
  span : Span
  /-- How it reaches instance variables. -/
  ivars : IvarAccess
  uses : List IvarUse
  nested : List Source

mutual

/-- A function and all that are nested in it, each before those in it. -/
def Source.walk : Source → List Source
  | ⟨name, span, ivars, uses, nested⟩ => ⟨name, span, ivars, uses, nested⟩ :: Source.walkAll nested

/-- Some functions, each with those that are nested in it. -/
def Source.walkAll : List Source → List Source
  | [] => []
  | source :: rest => source.walk ++ Source.walkAll rest

end

/-- What a part of a function's text contributes. -/
structure Trace where
  uses : List IvarUse
  /-- The functions that are nested in the function. -/
  nested : List Source
  methods : List Source

namespace Trace

/-- A part of the text with nothing in it. -/
def empty : Trace := ⟨[], [], []⟩

instance : Append Trace where
  append a b := ⟨a.uses ++ b.uses, a.nested ++ b.nested, a.methods ++ b.methods⟩

/-- A use of an instance variable. -/
def use (name : String) (writes : Bool) : Trace := ⟨[⟨name, writes⟩], [], []⟩

/-- A function of its own. -/
def source (t : Trace) (name : String) (span : Span) (ivars : IvarAccess) : Source :=
  ⟨name, span, ivars, t.uses, t.nested⟩

@[simp] theorem uses_append (a b : Trace) : (a ++ b).uses = a.uses ++ b.uses := rfl

@[simp] theorem nested_append (a b : Trace) : (a ++ b).nested = a.nested ++ b.nested := rfl

@[simp] theorem methods_append (a b : Trace) : (a ++ b).methods = a.methods ++ b.methods := rfl

@[simp] theorem nested_use (name : String) (writes : Bool) : (use name writes).nested = [] := rfl

@[simp] theorem methods_use (name : String) (writes : Bool) : (use name writes).methods = [] := rfl

theorem append_empty (a : Trace) : a ++ empty = a := by
  show mk (a.uses ++ []) (a.nested ++ []) (a.methods ++ []) = a
  simp only [List.append_nil]

theorem append_assoc (a b c : Trace) : a ++ b ++ c = a ++ (b ++ c) := by
  show mk (a.uses ++ b.uses ++ c.uses) (a.nested ++ b.nested ++ c.nested)
    (a.methods ++ b.methods ++ c.methods) =
    mk (a.uses ++ (b.uses ++ c.uses)) (a.nested ++ (b.nested ++ c.nested))
      (a.methods ++ (b.methods ++ c.methods))
  simp only [List.append_assoc]

end Trace

/-! ## What members are defined on -/

/-- What a member is defined on, and how methods there reach instance variables, by the construct
that it stands in and the namespace around it.

* At the top level it is the class of all objects, and there are no instance variables.
* In a class it is the class, and slots are those of its instances.
* In a mixin it is the mixin, and instance variables go by name.
* In a module, and in a singleton block, it is the singleton, and slots are those of the
  singleton. -/
def Context.memberTarget? (around : String) : Context → Option DefinitionTarget
  | .topLevel => some ⟨"Root::Std::Object", false, .forbidden⟩
  | .inNamespace .class _ => some ⟨around, false, .fixed around false⟩
  | .inNamespace .mixin _ => some ⟨around, false, .byName around⟩
  | .inNamespace .module _ => some ⟨around, true, .fixed around true⟩
  | .inSingleton _ _ => some ⟨around, true, .fixed around true⟩
  | .inNamespace .interface _ => none
  | .inBody => none

/-- What a member at a place is defined on. -/
def Site.memberTarget? (site : Site) : Option DefinitionTarget :=
  site.context.memberTarget? (site.nesting.headD "Root")

/-- Members are compiled for what they are defined on. -/
theorem Site.definitionTarget?_eq (site : Site) : site.definitionTarget? = site.memberTarget? := by
  obtain ⟨unit, nesting, context⟩ := site
  have around : (Site.mk unit nesting context).fullName = nesting.headD "Root" := by
    cases nesting <;> rfl
  unfold definitionTarget? memberTarget?
  rw [around]
  rcases context with _ | ⟨kind, _⟩ | _ | _
  case inNamespace => cases kind <;> rfl
  all_goals rfl

/-! ## Traces -/

mutual

/-- What is in an expression. -/
def Expr.trace (site : Site) (ivars : IvarAccess) : Expr → Trace
  | .literal _ _ => .empty
  | .self _ => .empty
  | .sequence _ _ items => Expr.traces site ivars items
  | .map _ entries => Expr.entryTraces site ivars entries
  | .local _ _ => .empty
  | .ivar _ name => .use name false
  | .constant _ _ => .empty
  | .assign _ (.local _) _ value => value.trace site ivars
  | .assign _ (.ivar name) none value => value.trace site ivars ++ .use name true
  | .assign _ (.ivar name) (some _) value =>
    .use name false ++ value.trace site ivars ++ .use name true
  | .binary _ _ left right => left.trace site ivars ++ right.trace site ivars
  | .unary _ _ operand => operand.trace site ivars
  | .logical _ _ left right => left.trace site ivars ++ right.trace site ivars
  | .block _ body => Stmt.traces site.inBody ivars body
  | .conditional _ condition thenBranch elseBranch =>
    condition.trace site ivars ++ Stmt.traces site.inBody ivars thenBranch ++
      Stmt.elseTrace site ivars elseBranch
  | .switch _ subject cases elseBranch =>
    subject.trace site ivars ++ Stmt.caseTraces site ivars cases ++ Stmt.elseTrace site
      ivars elseBranch
  | .closure span params body =>
    let inner := Expr.defaultTraces site.inBody ivars params ++ Stmt.traces site.inBody ivars body
    ⟨[], [inner.source "<closure>" span ivars], inner.methods⟩
  | .methodCall _ receiver _ arguments =>
    receiver.trace site ivars ++ Expr.traces site ivars arguments
  | .selfCall _ _ arguments => Expr.traces site ivars arguments
  | .call _ callee arguments => callee.trace site ivars ++ Expr.traces site ivars arguments
  | .subscript _ receiver index => receiver.trace site ivars ++ index.trace site ivars
  | .new _ _ arguments => Expr.traces site ivars arguments
  | .raise _ error => error.trace site ivars

/-- What is in expressions. -/
def Expr.traces (site : Site) (ivars : IvarAccess) : List Expr → Trace
  | [] => .empty
  | e :: rest => e.trace site ivars ++ Expr.traces site ivars rest

/-- What is in the entries of a map. -/
def Expr.entryTraces (site : Site) (ivars : IvarAccess) : List (Expr × Expr) → Trace
  | [] => .empty
  | (key, value) :: rest =>
    key.trace site ivars ++ value.trace site ivars ++ Expr.entryTraces site ivars rest

/-- What is in the defaults of parameters. -/
def Expr.defaultTraces (site : Site) (ivars : IvarAccess) : List Parameter → Trace
  | [] => .empty
  | ⟨_, some value, _, _⟩ :: rest => value.trace site ivars ++ Expr.defaultTraces site ivars rest
  | ⟨_, none, _, _⟩ :: rest => Expr.defaultTraces site ivars rest

/-- What is in a value that may be missing. -/
def Expr.optionalTrace (site : Site) (ivars : IvarAccess) : Option Expr → Trace
  | none => .empty
  | some value => value.trace site ivars

/-- What is in a last branch. -/
def Stmt.elseTrace (site : Site) (ivars : IvarAccess) : Option (List Stmt) → Trace
  | none => .empty
  | some body => Stmt.traces site.inBody ivars body

/-- What is in the cases of a switch. -/
def Stmt.caseTraces (site : Site) (ivars : IvarAccess) : List SwitchCase → Trace
  | [] => .empty
  | ⟨_, body, _⟩ :: rest => Stmt.traces site.inBody ivars body ++ Stmt.caseTraces site ivars rest

/-- What is in statements. -/
def Stmt.traces (site : Site) (ivars : IvarAccess) : List Stmt → Trace
  | [] => .empty
  | stmt :: rest => stmt.trace site ivars ++ Stmt.traces site ivars rest

/-- The trace of a statement. The body of a namespace is a function, unless there is nothing to
run. -/
def Stmt.trace (site : Site) (ivars : IvarAccess) : Stmt → Trace
  | .expression _ value => value.trace site ivars
  | .ret _ value => Expr.optionalTrace site ivars value
  | .loop _ condition body => condition.trace site ivars ++ Stmt.traces site.inBody ivars body
  | .variable _ _ _ _ initializer => Expr.optionalTrace site ivars initializer
  | .patternVariable _ _ _ initializer => initializer.trace site ivars
  | .constant _ _ _ value => value.trace site ivars
  | .namespace span kind path _ body =>
    let legal := site.context.permits (.namespace kind)
    let target := (declarationTarget site.nesting site.unit.lookup path).toOption
    let fullName := (target.map Prod.snd).getD site.fullName
    let inner := Stmt.traces (site.inNamespace fullName kind legal) (.fixed fullName true) body
    let runs := legal && (site.opened? kind target).isSome && Stmt.anyRunsAtDeclaration body
    ⟨[], if runs then [inner.source ("<namespace: " ++ fullName ++ ">") span
      (.fixed fullName true)] else [], inner.methods⟩
  | .singleton _ body =>
    Stmt.traces (site.within (.inSingleton site.singletonOwner (site.context.permits .singleton)))
      ivars body
  | .method span name params body =>
    let target := if site.context.permits .method then site.memberTarget? else none
    let access := (target.map DefinitionTarget.ivars).getD ivars
    let inner := Expr.defaultTraces site.inBody access params ++ Stmt.traces site.inBody access body
    ⟨[], [], inner.methods ++ (target.map fun _ => inner.source name span access).toList⟩
  | .signature _ _ _ => .empty
  | .attribute _ _ _ => .empty
  | .aliases _ _ => .empty
  | .ivar _ _ _ => .empty
  | .include _ _ => .empty
  | .using _ _ => .empty

end

/-- What is in a unit. -/
def Program.trace (unit : UnitInfo) (p : Program) : Trace :=
  Stmt.traces ⟨unit, [rootName], .topLevel⟩ .forbidden p.statements

/-- The functions that may run before the statements of a unit. The methods of the unit are
nested in the last one. -/
def Program.hoistedSources (unit : UnitInfo) (p : Program) : List Source :=
  [⟨"<namespaceDefinitions>", p.span, .forbidden, [], []⟩,
    ⟨"<ivarIndices>", p.span, .forbidden, [], []⟩,
    ⟨"<methodDefinitions>", p.span, .forbidden, [], (p.trace unit).methods⟩]

/-- The function of a unit, with some functions that run before its statements. -/
def Program.source (unit : UnitInfo) (p : Program) (hoisted : List Source) : Source :=
  ⟨unit.options.mainName, p.span, .forbidden, (p.trace unit).uses,
    (p.trace unit).nested ++ hoisted⟩

end StackCode
