import StackCode.Proofs.Sources

/-!
# Members and functions of a text

Members may be declared at the top level of a unit, in namespaces and in singleton blocks
(`Stmt.members`). In the body of a function nothing may be declared, nor in what is declared there
(`Stmt.allMembers_dead`).

A closure reaches instance variables as the function around it does, and the body of a namespace
reaches those of the namespace itself (`Source.Inside`); how a method reaches them depends on what
it is defined on.
-/

namespace StackCode

/-! ## Members -/

/-- What one operation defines. -/
inductive Member where
  | method (source : Source)
  | getter (name : String)
  | setter (name : String)
  | secondName (newName oldName : String)

/-- The source of a method. -/
def Member.source? : Member → Option Source
  | .method source => some source
  | _ => none

/-- A member with what it is defined on. -/
abbrev Definition := DefinitionTarget × Member

/-- The functions of the methods that are defined. -/
def sourcesOf (definitions : List Definition) : List Source :=
  definitions.filterMap fun definition => definition.2.source?

/-- The members that an attribute stands for. -/
def AttributeKind.members (name : String) : AttributeKind → List Member
  | .getter => [.getter name]
  | .setter => [.setter name]
  | .accessor => [.getter name, .setter name]

theorem AttributeKind.source?_members (kind : AttributeKind) (name : String) :
    ∀ member ∈ kind.members name, member.source? = none := by
  cases kind <;> simp [members, Member.source?]

/-- The definitions of entries on a target. -/
def definitionsFor {α : Type} (members : α → List Member) (entries : List α)
    (target : DefinitionTarget) : List Definition :=
  entries.flatMap fun entry => (members entry).map (target, ·)

theorem sourcesOf_definitionsFor {α : Type} {members : α → List Member}
    (plain : ∀ entry, ∀ member ∈ members entry, member.source? = none) (entries : List α)
    (target : DefinitionTarget) : sourcesOf (definitionsFor members entries target) = [] := by
  refine List.filterMap_eq_nil_iff.2 fun definition isDefinition => ?_
  obtain ⟨entry, -, found⟩ := List.mem_flatMap.1 isDefinition
  obtain ⟨member, isMember, rfl⟩ := List.mem_map.1 found
  exact plain entry member isMember

/-- The definitions on a target, if there is one. -/
def definitionsOn (target : Option DefinitionTarget)
    (definitions : DefinitionTarget → List Definition) : List Definition :=
  (target.map definitions).getD []

/-- What a declaration defines, if it may stand where it does. -/
def Site.defines (site : Site) (declaration : Declaration)
    (definitions : DefinitionTarget → List Definition) : List Definition :=
  definitionsOn (if site.context.permits declaration then site.memberTarget? else none) definitions

mutual

/-- The members that a statement defines. -/
def Stmt.members (site : Site) : Stmt → List Definition
  | .namespace _ kind path _ body =>
    let target := (declarationTarget site.nesting site.unit.lookup path).toOption
    let fullName := (target.map Prod.snd).getD site.fullName
    Stmt.allMembers ⟨site.unit, fullName :: site.nesting,
      .inNamespace kind (site.context.permits (.namespace kind))⟩ body
  | .singleton _ body =>
    Stmt.allMembers ⟨site.unit, site.nesting,
      .inSingleton site.singletonOwner (site.context.permits .singleton)⟩ body
  | .method span name params body => site.defines .method fun target =>
    let inner := Expr.defaultTraces site.inBody target.ivars params ++
      Stmt.traces site.inBody target.ivars body
    [(target, .method (inner.source name span target.ivars))]
  | .attribute _ kind entries =>
    site.defines kind.declaration (definitionsFor (fun entry => kind.members entry.name) entries)
  | .aliases _ entries => site.defines .aliases
    (definitionsFor (fun entry => [.secondName entry.newName entry.oldName]) entries)
  | _ => []

/-- Those of some statements. -/
def Stmt.allMembers (site : Site) : List Stmt → List Definition
  | [] => []
  | stmt :: rest => stmt.members site ++ Stmt.allMembers site rest

end

/-- The members that a unit defines, in the order of the text. -/
def Program.members (unit : UnitInfo) (program : Program) : List Definition :=
  Stmt.allMembers ⟨unit, [rootName], .topLevel⟩ program.statements

/-- A place where nothing may be declared. -/
def Site.Dead (site : Site) : Prop := ∀ declaration, site.context.permits declaration = false

namespace Site.Dead

theorem inBody (site : Site) : site.inBody.Dead := fun _ => rfl

theorem inNamespace (site : Site) (fullName : String) (kind : NamespaceKind) :
    (site.inNamespace fullName kind false).Dead := fun declaration => by
  cases declaration <;> rfl

theorem inSingleton (site : Site) (owner : NamespaceKind) :
    (site.within (.inSingleton owner false)).Dead := fun declaration => by
  cases declaration <;> rfl

theorem defines {site : Site} (dead : site.Dead) (declaration : Declaration)
    (definitions : DefinitionTarget → List Definition) :
      site.defines declaration definitions = [] := by
  rw [Site.defines, dead]
  rfl

end Site.Dead

mutual

theorem Stmt.members_dead : ∀ (stmt : Stmt) {site : Site}, site.Dead → stmt.members site = []
  | .namespace _ kind _ _ body, _, dead => by
    rw [Stmt.members, dead]
    exact Stmt.allMembers_dead body (.inNamespace _ _ kind)
  | .singleton _ body, _, dead => by
    rw [Stmt.members, dead]
    exact Stmt.allMembers_dead body (.inSingleton _ _)
  | .method _ _ _ _, _, dead => dead.defines _ _
  | .attribute _ _ _, _, dead => dead.defines _ _
  | .aliases _ _, _, dead => dead.defines _ _
  | .expression _ _, _, _ | .ret _ _, _, _ | .loop _ _ _, _, _ | .variable _ _ _ _ _, _, _ => rfl
  | .patternVariable _ _ _ _, _, _ | .constant _ _ _ _, _, _ | .signature _ _ _, _, _ => rfl
  | .ivar _ _ _, _, _ | .include _ _, _, _ | .using _ _, _, _ => rfl

theorem Stmt.allMembers_dead : ∀ (body : List Stmt) {site : Site}, site.Dead →
    Stmt.allMembers site body = []
  | [], _, _ => rfl
  | stmt :: rest, _, dead => by
    rw [Stmt.allMembers, stmt.members_dead dead, Stmt.allMembers_dead rest dead]
    rfl

end

theorem Stmt.allMembers_inBody (site : Site) (body : List Stmt) :
    Stmt.allMembers site.inBody body = [] :=
  Stmt.allMembers_dead body (.inBody site)

/-! ## Functions -/

/-- A function is directly in the text of one that reaches instance variables in some way. It is a
closure, which reaches them in the same way, or the body of a namespace. The same goes for those in
it. -/
inductive Source.Inside : IvarAccess → Source → Prop where
  | closure {ivars : IvarAccess} {span : Span} {uses : List IvarUse} {nested : List Source}
      (inside : ∀ source ∈ nested, Inside ivars source) :
      Inside ivars ⟨"<closure>", span, ivars, uses, nested⟩
  | body {ivars : IvarAccess} {fullName : String} {span : Span} {uses : List IvarUse}
      {nested : List Source} (inside : ∀ source ∈ nested, Inside (.fixed fullName true) source) :
      Inside ivars ⟨"<namespace: " ++ fullName ++ ">", span, .fixed fullName true, uses, nested⟩

/-- What a part of a function's text contributes: functions inside of it, and those of its
members. -/
structure Trace.Encloses (ivars : IvarAccess) (members : List Definition) (t : Trace) : Prop where
  nested : ∀ source ∈ t.nested, source.Inside ivars
  methods : t.methods = sourcesOf members
  access : ∀ target source, (target, .method source) ∈ members →
    source.ivars = target.ivars ∧ ∀ inner ∈ source.nested, inner.Inside target.ivars

namespace Trace.Encloses

variable {ivars : IvarAccess} {members others : List Definition} {uses : List IvarUse} {a b : Trace}

theorem none : Encloses ivars [] ⟨uses, [], []⟩ := ⟨nofun, rfl, nofun⟩

theorem append (first : Encloses ivars members a) (second : Encloses ivars others b) :
    Encloses ivars (members ++ others) (a ++ b) where
  nested source member :=
    (List.mem_append.1 member).elim (first.nested source) (second.nested source)
  methods := by simp [first.methods, second.methods, sourcesOf]
  access target source member :=
    (List.mem_append.1 member).elim (first.access target source) (second.access target source)

theorem inBody {site : Site} {body : List Stmt}
    (encloses : Encloses ivars (Stmt.allMembers site.inBody body) a) : Encloses ivars [] a :=
  Stmt.allMembers_inBody site body ▸ encloses

theorem closure {span : Span} (inner : Encloses ivars [] a) :
    Encloses ivars [] ⟨[], [a.source "<closure>" span ivars], a.methods⟩ where
  nested source member := by
    rw [List.mem_singleton.1 member]
    exact .closure inner.nested
  methods := inner.methods
  access := inner.access

theorem body {fullName : String} {span : Span} {runs : Prop} [Decidable runs]
    (inner : Encloses (.fixed fullName true) members a) :
    Encloses ivars members ⟨[], if runs then [a.source ("<namespace: " ++ fullName ++ ">") span
      (.fixed fullName true)] else [], a.methods⟩ where
  nested source member := by
    split at member
    · rw [List.mem_singleton.1 member]
      exact .body inner.nested
    · cases member
  methods := inner.methods
  access := inner.access

theorem plain {target : Option DefinitionTarget} {definitions : DefinitionTarget → List Definition}
    (noMethods : ∀ target, sourcesOf (definitions target) = []) :
    Encloses ivars (definitionsOn target definitions) .empty := by
  cases target with
  | none => exact none
  | some target =>
    refine ⟨nofun, (noMethods target).symm, fun other source member => ?_⟩
    cases List.filterMap_eq_nil_iff.1 (noMethods target) (other, .method source) member

theorem method {name : String} {span : Span} {target : Option DefinitionTarget}
    {inner : IvarAccess → Trace} (isInner : ∀ access, Encloses access [] (inner access)) :
    let access := (target.map DefinitionTarget.ivars).getD ivars
    Encloses ivars (definitionsOn target fun target =>
        [(target, .method ((inner target.ivars).source name span target.ivars))])
      ⟨[], [], (inner access).methods ++
        (target.map fun _ => (inner access).source name span access).toList⟩ := by
  intro access
  rw [(isInner access).methods]
  cases target with
  | none => exact none
  | some target =>
    refine ⟨nofun, rfl, fun other source member => ?_⟩
    cases List.mem_singleton.1 member
    exact ⟨rfl, (isInner target.ivars).nested⟩

end Trace.Encloses

open Trace

mutual

theorem Expr.encloses : ∀ (e : Expr) (site : Site) (ivars : IvarAccess),
    Encloses ivars [] (e.trace site ivars)
  | .literal _ _, _, _ => .none
  | .self _, _, _ => .none
  | .sequence _ _ items, site, ivars => Expr.encloses_all items site ivars
  | .map _ entries, site, ivars => Expr.encloses_entries entries site ivars
  | .local _ _, _, _ => .none
  | .ivar _ _, _, _ => .none
  | .constant _ _, _, _ => .none
  | .assign _ (.local _) _ value, site, ivars => value.encloses site ivars
  | .assign _ (.ivar _) none value, site, ivars => (value.encloses site ivars).append .none
  | .assign _ (.ivar _) (some _) value, site, ivars =>
    (Encloses.none.append (value.encloses site ivars)).append .none
  | .binary _ _ left right, site, ivars =>
    (left.encloses site ivars).append (right.encloses site ivars)
  | .unary _ _ operand, site, ivars => operand.encloses site ivars
  | .logical _ _ left right, site, ivars =>
    (left.encloses site ivars).append (right.encloses site ivars)
  | .block _ body, site, ivars => (Stmt.encloses_all body site.inBody ivars).inBody
  | .conditional _ condition thenBranch elseBranch, site, ivars =>
    ((condition.encloses site ivars).append
      (Stmt.encloses_all thenBranch site.inBody ivars).inBody).append
      (Stmt.encloses_else elseBranch site ivars)
  | .switch _ subject cases elseBranch, site, ivars =>
    ((subject.encloses site ivars).append (Stmt.encloses_cases cases site ivars)).append
      (Stmt.encloses_else elseBranch site ivars)
  | .closure _ params body, site, ivars =>
    .closure ((Expr.encloses_defaults params site.inBody ivars).append
      (Stmt.encloses_all body site.inBody ivars).inBody)
  | .methodCall _ receiver _ arguments, site, ivars =>
    (receiver.encloses site ivars).append (Expr.encloses_all arguments site ivars)
  | .selfCall _ _ arguments, site, ivars => Expr.encloses_all arguments site ivars
  | .call _ callee arguments, site, ivars =>
    (callee.encloses site ivars).append (Expr.encloses_all arguments site ivars)
  | .subscript _ receiver index, site, ivars =>
    (receiver.encloses site ivars).append (index.encloses site ivars)
  | .new _ _ arguments, site, ivars => Expr.encloses_all arguments site ivars
  | .raise _ error, site, ivars => error.encloses site ivars

theorem Expr.encloses_all : ∀ (items : List Expr) (site : Site) (ivars : IvarAccess),
    Encloses ivars [] (Expr.traces site ivars items)
  | [], _, _ => .none
  | e :: rest, site, ivars => (e.encloses site ivars).append (Expr.encloses_all rest site ivars)

theorem Expr.encloses_entries : ∀ (entries : List (Expr × Expr)) (site : Site) (ivars : IvarAccess),
    Encloses ivars [] (Expr.entryTraces site ivars entries)
  | [], _, _ => .none
  | (key, value) :: rest, site, ivars =>
    ((key.encloses site ivars).append (value.encloses site ivars)).append
      (Expr.encloses_entries rest site ivars)

theorem Expr.encloses_defaults : ∀ (params : List Parameter) (site : Site) (ivars : IvarAccess),
    Encloses ivars [] (Expr.defaultTraces site ivars params)
  | [], _, _ => .none
  | ⟨_, some value, _, _⟩ :: rest, site, ivars =>
    (value.encloses site ivars).append (Expr.encloses_defaults rest site ivars)
  | ⟨_, none, _, _⟩ :: rest, site, ivars => Expr.encloses_defaults rest site ivars

theorem Expr.encloses_optional : ∀ (value : Option Expr) (site : Site) (ivars : IvarAccess),
    Encloses ivars [] (Expr.optionalTrace site ivars value)
  | none, _, _ => .none
  | some value, site, ivars => value.encloses site ivars

theorem Stmt.encloses_else : ∀ (branch : Option (List Stmt)) (site : Site) (ivars : IvarAccess),
    Encloses ivars [] (Stmt.elseTrace site ivars branch)
  | none, _, _ => .none
  | some body, site, ivars => (Stmt.encloses_all body site.inBody ivars).inBody

theorem Stmt.encloses_cases : ∀ (cases : List SwitchCase) (site : Site) (ivars : IvarAccess),
    Encloses ivars [] (Stmt.caseTraces site ivars cases)
  | [], _, _ => .none
  | ⟨_, body, _⟩ :: rest, site, ivars =>
    (Stmt.encloses_all body site.inBody ivars).inBody.append (Stmt.encloses_cases rest site ivars)

theorem Stmt.encloses_all : ∀ (body : List Stmt) (site : Site) (ivars : IvarAccess),
    Encloses ivars (Stmt.allMembers site body) (Stmt.traces site ivars body)
  | [], _, _ => .none
  | stmt :: rest, site, ivars =>
    (stmt.encloses site ivars).append (Stmt.encloses_all rest site ivars)

theorem Stmt.encloses : ∀ (stmt : Stmt) (site : Site) (ivars : IvarAccess),
    Encloses ivars (stmt.members site) (stmt.trace site ivars)
  | .expression _ value, site, ivars => value.encloses site ivars
  | .ret _ value, site, ivars => Expr.encloses_optional value site ivars
  | .loop _ condition body, site, ivars =>
    (condition.encloses site ivars).append (Stmt.encloses_all body site.inBody ivars).inBody
  | .variable _ _ _ _ initializer, site, ivars => Expr.encloses_optional initializer site ivars
  | .patternVariable _ _ _ initializer, site, ivars => initializer.encloses site ivars
  | .constant _ _ _ value, site, ivars => value.encloses site ivars
  | .namespace _ _ _ _ body, _, _ => .body (Stmt.encloses_all body _ _)
  | .singleton _ body, site, ivars => Stmt.encloses_all body _ ivars
  | .method _ _ params body, site, _ => .method fun access =>
    (Expr.encloses_defaults params site.inBody access).append
      (Stmt.encloses_all body site.inBody access).inBody
  | .signature _ _ _, _, _ => .none
  | .attribute _ kind entries, _, _ =>
    .plain (sourcesOf_definitionsFor (fun _ => kind.source?_members _) entries)
  | .aliases _ entries, _, _ => .plain (sourcesOf_definitionsFor (by simp [Member.source?]) entries)
  | .ivar _ _ _, _, _ => .none
  | .include _ _, _, _ => .none
  | .using _ _, _, _ => .none

end

theorem Program.encloses (program : Program) (unit : UnitInfo) :
    Encloses .forbidden (program.members unit) (program.trace unit) :=
  Stmt.encloses_all program.statements _ _

end StackCode
