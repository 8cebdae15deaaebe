import StackCode.Namespace.Declared

/-!
# Links between namespaces

After a unit's declarations are known, superclasses and included mixins are resolved, and where
each namespace gets its instance variables from is recorded.

## Design Notes

A class that would inherit from itself is reported, and is given the default superclass instead.
That is done class by class, in the order of declaration, so one cut mends the chain for the classes
after it.
-/

namespace StackCode

structure Linking where
  declared : Declared
  issues : Array Issue
  imports : Imports

namespace Linking

def fail (l : Linking) (failure : Failure) (span : Span) : Linking :=
  { l with issues := l.issues.push (.failure failure span) }

/-- Take in a `using` statement. Its failures are reported when code is made for it. -/
def use (l : Linking) (registry : Registry) (nesting : List String) (entries : List Using) :
    Linking :=
  { l with imports := (Imports.use nesting (l.declared.lookup registry) entries l.imports).1 }

/-- Link a superclass. One that differs from the superclass that the class has is a failure. -/
def setSuperclass (l : Linking) (fullName superclass : String) (span : Span) : Linking :=
  match l.declared.get? fullName with
  | none => l
  | some ns =>
    match ns.superclass with
    | none =>
      { l with declared := l.declared.modify fullName fun ns =>
          { ns with
            superclass := some superclass
            setsSuperclass := true
            superclassSpan := some span } }
    | some existing =>
      if existing = superclass then l
      else l.fail (.superclassMismatch fullName existing superclass) span

def superclass (l : Linking) (registry : Registry) (nesting : List String) (fullName : String)
    (kind : NamespaceKind) (path : Path) (span : Span) : Linking :=
  if kind ≠ .class then l.fail (.superclassOnNonClass fullName kind) span
  else
    match resolveNamespace l.imports nesting (l.declared.lookup registry) path with
    | .error failure => l.fail failure span
    | .ok (superclass, .class) => l.setSuperclass fullName superclass span
    | .ok (superclass, kind) => l.fail (.invalidSuperclass fullName superclass kind) span

def includeMixin (registry : Registry) (nesting : List String) (fullName : String) (span : Span)
    (l : Linking) (path : Path) : Linking :=
  match resolveNamespace l.imports nesting (l.declared.lookup registry) path with
  | .error failure => l.fail failure span
  | .ok (mixin, .mixin) =>
    { l with declared := l.declared.modify fullName fun ns =>
        { ns with
          mixins := if ns.mixins.contains mixin then ns.mixins else ns.mixins ++ [mixin]
          contributions := ns.contributions ++ [.include mixin] } }
  | .ok (included, kind) => l.fail (.includeNonMixin fullName included kind) span

def declareIvars (l : Linking) (fullName : String) (names : List String) (span : Span) : Linking :=
  { l with declared := l.declared.modify fullName fun ns =>
      { ns with contributions := ns.contributions ++ names.map (Contribution.declare · span) } }

def declareSingletonIvars (l : Linking) (fullName : String) (names : List String) (span : Span) :
    Linking :=
  { l with declared := l.declared.modify fullName fun ns =>
      { ns with singletonIvars := ns.singletonIvars ++ names.map ((·, span)) } }

def singletonStmt (registry : Registry) (nesting : List String) (fullName : String) (l : Linking) :
    Stmt → Linking
  | .using _ entries => l.use registry nesting entries
  | .ivar span name _ => l.declareSingletonIvars fullName [name] span
  | .attribute span _ entries => l.declareSingletonIvars fullName (entries.map Attribute.name) span
  | _ => l

def singleton (l : Linking) (registry : Registry) (nesting : List String) (fullName : String)
    (body : List Stmt) : Linking :=
  let inside := body.foldl (singletonStmt registry nesting fullName) { l with imports :=
    l.imports.push }
  { inside with imports := l.imports }

end Linking

/-- The namespace whose body is being linked. -/
structure Owner where
  fullName : String
  kind : NamespaceKind

mutual

/-- Link what a statement declares. At the top level there is no owner. -/
def linkStmt (registry : Registry) (nesting : List String) (owner : Option Owner) :
    Stmt → Linking → Linking
  | .namespace span kind path superclass body, l =>
    match declarationTarget nesting (l.declared.lookup registry) path with
    | .error _ => l
    | .ok (_, fullName) =>
      if (l.declared.get? fullName).map DeclaredNamespace.kind = some kind then
        let l :=
          match superclass with
          | some path => l.superclass registry nesting fullName kind path span
          | none => l
        let inside := linkBody registry (fullName :: nesting) (some ⟨fullName, kind⟩) body
          { l with imports := l.imports.push }
        { inside with imports := l.imports }
      else l
  | .using _ entries, l => l.use registry nesting entries
  | .include span paths, l =>
    match owner with
    | some ⟨fullName, kind⟩ =>
      if kind.holdsInstances then paths.foldl
        (Linking.includeMixin registry nesting fullName span) l
      else l
    | none => l
  | .ivar span name _, l =>
    match owner with
    | some ⟨fullName, kind⟩ =>
      if kind.holdsInstances then l.declareIvars fullName [name] span else l
    | none => l
  | .attribute span _ entries, l =>
    match owner with
    | some ⟨fullName, kind⟩ =>
      if kind.holdsInstances then l.declareIvars fullName (entries.map Attribute.name) span else l
    | none => l
  | .singleton _ body, l =>
    match owner with
    | some ⟨fullName, kind⟩ =>
      if kind = .interface then l else l.singleton registry nesting fullName body
    | none => l
  | .expression _ _, l => l
  | .ret _ _, l => l
  | .loop _ _ _, l => l
  | .variable _ _ _ _ _, l => l
  | .patternVariable _ _ _ _, l => l
  | .constant _ _ _ _, l => l
  | .method _ _ _ _, l => l
  | .signature _ _ _, l => l
  | .aliases _ _, l => l

def linkBody (registry : Registry) (nesting : List String) (owner : Option Owner) :
    List Stmt → Linking → Linking
  | [], l => l
  | stmt :: rest, l =>
    linkBody registry nesting owner rest (linkStmt registry nesting owner stmt l)

end

/-- The superclass of a class: as the unit has it, or else as the registry has it. -/
def superclassOf? (d : Declared) (registry : Registry) (fullName : String) : Option String :=
  match d.get? fullName with
  | some ns => ns.superclass
  | none => (registry.get? fullName).bind NamespaceInfo.superclass

/-- Whether a class is met within so many steps up a chain of superclasses. -/
def reachesSuperclass (superclass? : String → Option String) (target : String) :
    Nat → Option String → Bool
  | 0, _ => false
  | _ + 1, none => false
  | steps + 1, some ancestor =>
    ancestor == target || reachesSuperclass superclass? target steps (superclass? ancestor)

/-- Report a class that is its own ancestor, and cut the chain at it. A chain is no longer than
there are namespaces, unless it goes round elsewhere. -/
def cutCycle (registry : Registry) (l : Linking) (fullName : String) : Linking :=
  let superclass? := superclassOf? l.declared registry
  let steps := l.declared.namespaces.size + registry.size + 2
  match l.declared.get? fullName with
  | none => l
  | some ns =>
    if reachesSuperclass superclass? fullName steps (superclass? fullName) then
      let cut := { l with declared := l.declared.modify fullName fun ns =>
        { ns with superclass := some objectName, setsSuperclass := false } }
      cut.fail (.circularInheritance fullName) (ns.superclassSpan.getD ns.span)
    else l

/-- Give a class without superclass the default one. -/
def DeclaredNamespace.withDefaultSuperclass (ns : DeclaredNamespace) : DeclaredNamespace :=
  if ns.kind = .class ∧ ns.superclass = none then { ns with superclass := some objectName } else ns

/-- Resolve the superclasses and mixins of a unit. -/
def link (registry : Registry) (statements : List Stmt) (c : Collection) : Collection :=
  let linked := linkBody registry [rootName] none statements ⟨c.declared, c.issues, .empty⟩
  let classes := linked.declared.namespaces.toValues.filter (·.kind = .class)
  let cut := (classes.map DeclaredNamespace.fullName).foldl (cutCycle registry) linked
  { declared := { cut.declared with
      namespaces := cut.declared.namespaces.map DeclaredNamespace.withDefaultSuperclass }
    issues := cut.issues }

end StackCode
