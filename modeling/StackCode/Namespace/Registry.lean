import StackCode.NameTable
import StackCode.Syntax.Basic

/-!
# The registry of namespaces

What earlier units declared, by full name.

## Design Notes

A registry is a value. A unit is compiled against the registry that it took, and what it declared is
added to the registry that is current when it is done. Two registries are equal exactly when they
answer every look-up alike.
-/

namespace StackCode

/-- The namespace of what every unit can use. -/
def stdName : String := "Root::Std"

/-- The class that classes inherit from unless they name another. -/
def objectName : String := "Root::Std::Object"

def listName : String := "Root::Std::List"

def tupleName : String := "Root::Std::Tuple"

def mapName : String := "Root::Std::Map"

/-- The class of errors that a pattern declaration throws. -/
def patternErrorName : String := "Root::Std::PatternNotMatchedError"

structure NamespaceInfo where
  kind : NamespaceKind
  superclass : Option String
  mixins : List String
  ivars : NameTable
  singletonIvars : NameTable
  members : NameTable

namespace NamespaceInfo

/-- A namespace with nothing in it. -/
def bare (kind : NamespaceKind) (superclass : Option String) : NamespaceInfo where
  kind := kind
  superclass := superclass
  mixins := []
  ivars := .empty
  singletonIvars := .empty
  members := .empty

/-- The table of instance variables, or that of the singleton. -/
def table (info : NamespaceInfo) (singleton : Bool) : NameTable :=
  if singleton then info.singletonIvars else info.ivars

/-- Whether two entries say the same. The order of members and of instance variables does not
count. -/
def same (a b : NamespaceInfo) : Bool :=
  a.kind == b.kind && a.superclass == b.superclass && a.mixins == b.mixins &&
    a.ivars.sameNames b.ivars && a.singletonIvars.sameNames b.singletonIvars &&
    a.members.sameNames b.members

end NamespaceInfo

/-- What a full name can stand for. -/
inductive ConstantKind where
  | «namespace» (kind : NamespaceKind)
  | value
deriving DecidableEq, Repr

def ConstantKind.namespace? : ConstantKind → Option NamespaceKind
  | .namespace kind => some kind
  | .value => none

/-- The registered namespaces, by full name. -/
structure Registry where
  namespaces : Std.ExtTreeMap String NamespaceInfo compare

namespace Registry

def empty : Registry := ⟨∅⟩

def get? (r : Registry) (fullName : String) : Option NamespaceInfo := r.namespaces[fullName]?

def insert (r : Registry) (fullName : String) (info : NamespaceInfo) : Registry :=
  ⟨r.namespaces.insert fullName info⟩

def size (r : Registry) : Nat := r.namespaces.size

def addMembers (r : Registry) (fullName : String) (names : NameTable) : Registry :=
  ⟨r.namespaces.modify fullName fun info => { info with members := info.members.append names }⟩

def declare (r : Registry) (parent name : String) (info : NamespaceInfo) : Registry :=
  (r.addMembers parent (.ofList [name])).insert (memberName parent name) info

/-- What a full name stands for: a namespace, or a member of one that is no namespace itself. -/
def constant? (r : Registry) (fullName : String) : Option ConstantKind :=
  match r.get? fullName with
  | some info => some (.namespace info.kind)
  | none => do
    let (parent, name) ← splitMember? fullName
    let info ← r.get? parent
    if info.members.contains name then some .value else none

/-- The classes whose superclass is the given one, by name. -/
def subclasses (r : Registry) (fullName : String) : List String :=
  r.namespaces.toList.filterMap fun (name, info) =>
    if info.superclass = some fullName then some name else none

/-- The root, and the parts of the standard namespace that code refers to. -/
def prelude : Registry :=
  let module : NamespaceInfo := .bare .module none
  let subclass (superclass : String) : NamespaceInfo := .bare .class (some superclass)
  let base := (empty.insert rootName module).declare rootName "Std" module
    |>.declare stdName "Value" (.bare .class none)
    |>.declare stdName "Object" (subclass "Root::Std::Value")
  let classes := ["Int", "Float", "String", "Symbol", "Nil", "Bool", "List", "Tuple",
    "Map", "Error"]
  classes.foldl (fun r name => r.declare stdName name (subclass objectName)) base
    |>.declare stdName "PatternNotMatchedError" (subclass "Root::Std::Error")
    |>.declare stdName "Kernel" module

/-! ### What the operations do to look-ups -/

@[ext] theorem ext {a b : Registry} (h : ∀ n, a.get? n = b.get? n) : a = b := by
  cases a
  cases b
  congr
  exact Std.ExtTreeMap.ext_getElem? h

@[simp] theorem get?_empty (n : String) : empty.get? n = none := by
  simp [get?, empty]

theorem get?_insert (r : Registry) (fullName n : String) (info : NamespaceInfo) :
    (r.insert fullName info).get? n = if fullName = n then some info else r.get? n := by
  simp [get?, insert, Std.ExtTreeMap.getElem?_insert]

theorem get?_addMembers (r : Registry) (fullName n : String) (names : NameTable) :
    (r.addMembers fullName names).get? n =
      if fullName = n then
        (r.get? n).map fun info => { info with members := info.members.append names }
      else r.get? n := by
  unfold addMembers get?
  rw [Std.ExtTreeMap.getElem?_modify]
  simp only [Std.compare_eq_iff_eq]
  split
  · subst_vars; rfl
  · rfl

end Registry

end StackCode
