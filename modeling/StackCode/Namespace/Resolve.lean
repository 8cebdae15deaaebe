import StackCode.Diagnostic
import StackCode.Namespace.Registry

/-!
# Resolution of constant paths

A relative path is looked up through the imports from the innermost scope outwards, then in the
enclosing namespaces from the innermost outwards, and at last in the standard namespace.

## Design Notes

An import that binds the head of a path decides the whole path. Otherwise each enclosing namespace
is tried with the whole path. `nesting` lists the enclosing namespaces, innermost first.
-/

namespace StackCode

/-- What a unit can see, by full name. -/
abbrev Lookup := String → Option ConstantKind

/-- One entry of a `using` statement, resolved. -/
inductive Import where
  | named (name target : String)
  | wildcard (fullName : String)
deriving DecidableEq, Repr

namespace Import

def target? (head : String) : Import → Option String
  | .named name target => if name = head then some target else none
  | .wildcard _ => none

/-- The constant of that name in an imported namespace. -/
def candidate? (lookup : Lookup) (head : String) : Import → Option String
  | .named _ _ => none
  | .wildcard fullName =>
    let candidate := memberName fullName head
    if (lookup candidate).isSome then some candidate else none

end Import

/-- The imports of one scope, latest first. -/
abbrev ImportFrame := List Import

/-- The imports in scope: those of the innermost scope, and of the scopes around it, innermost
first. -/
structure Imports where
  inner : ImportFrame
  outer : List ImportFrame
deriving DecidableEq, Repr

namespace Imports

def empty : Imports := ⟨[], []⟩

def push (i : Imports) : Imports := ⟨[], i.inner :: i.outer⟩

/-- Close the innermost scope; the outermost one stays. -/
def pop (i : Imports) : Imports :=
  match i.outer with
  | [] => i
  | inner :: outer => ⟨inner, outer⟩

def add (i : Imports) (entry : Import) : Imports := { i with inner := entry :: i.inner }

/-- What the imports of one scope make of a name. The latest that names it wins. Otherwise the
imported namespaces that have it must agree. -/
def ofFrame (lookup : Lookup) (head : String) (frame : ImportFrame) :
    Except Failure (Option String) :=
  match frame.findSome? (Import.target? head) with
  | some target => .ok (some target)
  | none =>
    match (frame.filterMap (Import.candidate? lookup head)).eraseDups with
    | [] => .ok none
    | [candidate] => .ok (some candidate)
    | later :: earlier :: _ => .error (.ambiguousConstant head earlier later)

/-- What the imports of the scopes make of a name: the first scope that binds it decides. -/
def ofFrames (lookup : Lookup) (head : String) : List ImportFrame → Except Failure (Option String)
  | [] => .ok none
  | frame :: rest =>
    match ofFrame lookup head frame with
    | .ok none => ofFrames lookup head rest
    | found => found

/-- What the imports make of a name. -/
def find (i : Imports) (lookup : Lookup) (head : String) : Except Failure (Option String) :=
  ofFrames lookup head (i.inner :: i.outer)

end Imports

/-- Follow a path down from a full name. Every step has to exist. -/
def descend (lookup : Lookup) (start : String) : List String → Option String
  | [] => if (lookup start).isSome then some start else none
  | segment :: rest =>
    if (lookup start).isSome then descend lookup (memberName start segment) rest else none

/-- The namespaces that a relative path is looked up in, in order. -/
def searched (nesting : List String) : List String :=
  (if nesting.isEmpty then [rootName] else nesting) ++ [stdName]

def resolveRelative (imports : Imports) (nesting : List String) (lookup : Lookup) (head : String)
    (rest : List String) : Except Failure (Option String) := do
  match ← imports.find lookup head with
  | some target => return descend lookup target rest
  | none =>
    return (searched nesting).findSome? fun name => descend lookup (memberName name head) rest

/-- The full name that a path denotes. The empty path denotes the root. -/
def resolve (imports : Imports) (nesting : List String) (lookup : Lookup) (path : Path) :
    Except Failure String := do
  match path.segments with
  | [] => return rootName
  | head :: rest =>
    let found ←
      if path.absolute then pure (descend lookup (memberName rootName head) rest)
      else resolveRelative imports nesting lookup head rest
    match found with
    | some fullName => return fullName
    | none => throw (.undefinedConstant path)

def resolveNamespace (imports : Imports) (nesting : List String) (lookup : Lookup) (path : Path) :
    Except Failure (String × NamespaceKind) := do
  let fullName ← resolve imports nesting lookup path
  match (lookup fullName).bind ConstantKind.namespace? with
  | some kind => return (fullName, kind)
  | none => throw (.notANamespace path)

/-- Where a declaration puts its namespace: the full names of the parent and of itself. What stands
before the last segment is resolved without imports. -/
def declarationTarget (nesting : List String) (lookup : Lookup) (path : Path) :
    Except Failure (String × String) := do
  match path.segments.getLast? with
  | none => throw (.undefinedConstant path)
  | some last =>
    let parent ←
      match path.segments.dropLast with
      | [] => pure (if path.absolute then rootName else nesting.head?.getD rootName)
      | parents =>
        let (parent, _) ← resolveNamespace .empty nesting lookup ⟨parents, path.absolute⟩
        pure parent
    return (parent, memberName parent last)

/-- Take in the entries of a `using` statement. An entry that does not resolve is passed over, and
its failure is listed. -/
def Imports.use (nesting : List String) (lookup : Lookup) :
    List Using → Imports → Imports × List Failure
  | [], imports => (imports, [])
  | entry :: rest, imports =>
    let resolved : Except Failure (Option Import) :=
      match entry with
      | .constant path newName => do
        let fullName ← resolve imports nesting lookup path
        return (newName <|> path.last?).map (Import.named · fullName)
      | .all path => do
        let (fullName, _) ← resolveNamespace imports nesting lookup path
        return some (.wildcard fullName)
    match resolved with
    | .ok found =>
      Imports.use nesting lookup rest (found.elim imports imports.add)
    | .error failure =>
      let (imports, failures) := Imports.use nesting lookup rest imports
      (imports, failure :: failures)

end StackCode
