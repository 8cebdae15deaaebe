import StackCode.Namespace.Resolve
import StackCode.OrderedMap

/-!
# What a unit declares

All namespaces and constants of a unit are recorded before anything else is done, so that code can
refer to what is declared later.
-/

namespace StackCode

/-- Where instance variables of a namespace come from. -/
inductive Contribution where
  /-- Those of a mixin. -/
  | include (mixin : String)
  | declare (name : String) (span : Span)
deriving DecidableEq, Repr

structure DeclaredNamespace where
  fullName : String
  parent : String
  name : String
  kind : NamespaceKind
  /-- Whether the registry had it before. -/
  registered : Bool
  superclass : Option String
  /-- Whether the unit links the superclass. -/
  setsSuperclass : Bool
  superclassSpan : Option Span
  mixins : List String
  /-- Where its instance variables come from, in the order of the body. -/
  contributions : List Contribution
  singletonIvars : List (String × Span)
  span : Span

namespace DeclaredNamespace

/-- What the tables of a namespace are made of. -/
def contributionsTo (ns : DeclaredNamespace) (singleton : Bool) : List Contribution :=
  if singleton then ns.singletonIvars.map fun (name, span) => .declare name span
  else ns.contributions

end DeclaredNamespace

/-- The namespaces and constants of a unit. -/
structure Declared where
  namespaces : OrderedMap DeclaredNamespace
  /-- The full names of constants that are no namespaces. -/
  constants : NameTable
  /-- What the unit adds to namespaces, by their full names. -/
  members : OrderedMap NameTable

namespace Declared

def empty : Declared where
  namespaces := .empty
  constants := .empty
  members := .empty

def get? (d : Declared) (fullName : String) : Option DeclaredNamespace := d.namespaces.get? fullName

def addMember (d : Declared) (parent name : String) : Declared :=
  { d with members := d.members.insert parent (((d.members.get? parent).getD .empty).insert name) }

def modify (d : Declared) (fullName : String) (f : DeclaredNamespace → DeclaredNamespace) :
    Declared :=
  { d with namespaces := d.namespaces.modify fullName f }

/-- What a unit can see: its own declarations, then the registry. -/
def lookup (d : Declared) (registry : Registry) : Lookup := fun fullName =>
  match d.get? fullName with
  | some ns => some (.namespace ns.kind)
  | none => if d.constants.contains fullName then some .value else registry.constant? fullName

end Declared

/-- A unit being collected: what it declares, and what is wrong with it. -/
structure Collection where
  declared : Declared
  issues : Array Issue

namespace Collection

def fail (c : Collection) (failure : Failure) (span : Span) : Collection :=
  { c with issues := c.issues.push (.failure failure span) }

def record (c : Collection) (kind : NamespaceKind) (parent fullName : String) (registered : Bool)
    (superclass : Option String) (span : Span) : Collection :=
  let ns : DeclaredNamespace := {
    fullName := fullName
    parent := parent
    name := ((splitMember? fullName).map (·.2)).getD fullName
    kind := kind
    registered := registered
    superclass := superclass
    setsSuperclass := false
    superclassSpan := none
    mixins := []
    contributions := []
    singletonIvars := []
    span := span }
  { c with declared := { c.declared with namespaces := c.declared.namespaces.insert fullName ns } }

def constant (registry : Registry) (nesting : List String) (name : String) (span : Span)
    (c : Collection) : Collection :=
  let parent := nesting.head?.getD rootName
  let fullName := memberName parent name
  if (c.declared.lookup registry fullName).isSome then
    c.fail (.constantRedefinition fullName) span
  else
    let declared := { c.declared with constants := c.declared.constants.insert fullName }
    { c with declared := declared.addMember parent name }

/-- Record the declaration of a namespace. It gives the full name, unless the namespace may not be
declared so. -/
def openNamespace (registry : Registry) (nesting : List String) (kind : NamespaceKind) (path : Path)
    (span : Span) (c : Collection) : Collection × Option String :=
  match declarationTarget nesting (c.declared.lookup registry) path with
  | .error failure => (c.fail failure span, none)
  | .ok (parent, fullName) =>
    match c.declared.lookup registry fullName with
    | some .value => (c.fail (.constantRedefinition fullName) span, none)
    | some (.namespace existing) =>
      if existing ≠ kind then (c.fail (.kindMismatch fullName kind existing) span, none)
      else if (c.declared.get? fullName).isSome then (c, some fullName)
      else
        let superclass := (registry.get? fullName).bind NamespaceInfo.superclass
        (c.record kind parent fullName true superclass span, some fullName)
    | none =>
      let c := c.record kind parent fullName false none span
      match path.last? with
      | some name => ({ c with declared := c.declared.addMember parent name }, some fullName)
      | none => (c, some fullName)

end Collection

mutual

def collectStmt (registry : Registry) (nesting : List String) :
    Stmt → Collection → Collection
  | .namespace span kind path _ body, c =>
    match c.openNamespace registry nesting kind path span with
    | (c, some fullName) => collectBody registry (fullName :: nesting) body c
    | (c, none) => c
  | .constant span name _ _, c => c.constant registry nesting name span
  | .expression _ _, c => c
  | .ret _ _, c => c
  | .loop _ _ _, c => c
  | .variable _ _ _ _ _, c => c
  | .patternVariable _ _ _ _, c => c
  | .singleton _ _, c => c
  | .method _ _ _ _, c => c
  | .signature _ _ _, c => c
  | .attribute _ _ _, c => c
  | .aliases _ _, c => c
  | .ivar _ _ _, c => c
  | .include _ _, c => c
  | .using _ _, c => c

def collectBody (registry : Registry) (nesting : List String) :
    List Stmt → Collection → Collection
  | [], c => c
  | stmt :: rest, c => collectBody registry nesting rest (collectStmt registry nesting stmt c)

end

def collect (registry : Registry) (statements : List Stmt) : Collection :=
  collectBody registry [rootName] statements ⟨.empty, #[]⟩

end StackCode
