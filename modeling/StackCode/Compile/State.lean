import StackCode.Compile.Pool
import StackCode.Namespace.Layout
import StackCode.Scope.Capture
import StackCode.Scope.Stack

/-!
# The state of a compilation

## Design Notes

Code is not part of the state. Every step returns the piece of code it makes, and pieces are put
together by whoever asked for them. A site is handed down and never changed.
-/

namespace StackCode

/-- What can be chosen for a compilation. -/
structure Options where
  file : String
  /-- The name of the function that runs the unit. -/
  mainName : String
  warnUnusedValues : Bool
  warnUnreachableCode : Bool
deriving DecidableEq, Repr

def Options.forFile (file : String) : Options where
  file := file
  mainName := "<main>"
  warnUnusedValues := true
  warnUnreachableCode := true

/-- How a function reaches the instance variables of its receiver. -/
inductive IvarAccess where
  /-- By slots of a table. -/
  | fixed (fullName : String) (singleton : Bool)
  /-- By names of a mixin's table, looked up in the class of the receiver. -/
  | byName (fullName : String)
  | forbidden
deriving DecidableEq, Repr

structure UnitInfo where
  options : Options
  registry : Registry
  declared : Declared
  layouts : Layouts

namespace UnitInfo

def lookup (u : UnitInfo) : Lookup := u.declared.lookup u.registry

/-- The table of instance variables of a namespace: as the unit lays it out, or else as
registered. -/
def table? (u : UnitInfo) (fullName : String) (singleton : Bool) : Option NameTable :=
  u.layouts.table? fullName singleton <|> (u.registry.get? fullName).map (·.table singleton)

end UnitInfo

/-- A place in a unit. -/
structure Site where
  unit : UnitInfo
  /-- The enclosing namespaces, innermost first. -/
  nesting : List String
  /-- The construct whose body it is in. -/
  context : Context

namespace Site

def fullName (s : Site) : String := s.nesting.head?.getD rootName

/-- The same place in another construct. -/
def within (s : Site) (context : Context) : Site := { s with context := context }

/-- The same place in the body of a method, closure or block. -/
def inBody (s : Site) : Site := s.within .inBody

def inNamespace (s : Site) (fullName : String) (kind : NamespaceKind) (valid : Bool) : Site :=
  { s with nesting := fullName :: s.nesting, context := .inNamespace kind valid }

end Site

/-- A function that is being compiled. -/
structure Frame where
  /-- Whether it is a closure, which sees the variables of the function around it. -/
  isClosure : Bool
  ivars : IvarAccess
  pool : Pool
  scopes : ScopeStack
  captures : CaptureList

def Frame.new (isClosure : Bool) (ivars : IvarAccess) : Frame where
  isClosure := isClosure
  ivars := ivars
  pool := .new
  scopes := .new
  captures := .empty

structure NamespaceRecord where
  fullName : String
  parent : String
  name : String
  kind : NamespaceKind
  span : Span
deriving DecidableEq, Repr

/-- The definitions of methods, attributes and aliases, which the unit runs before its
statements. -/
structure MemberDefinitions where
  pool : Pool
  code : Code

structure CompileState where
  issues : Array Issue
  current : Frame
  /-- The functions around the current one, innermost first. -/
  enclosing : List Frame
  members : MemberDefinitions
  /-- The namespaces that the unit creates or reopens, in the order of their first declarations. -/
  records : OrderedMap NamespaceRecord
  imports : Imports

/-- A step of a compilation. -/
abbrev Compile := StateM CompileState

namespace Compile

def report (issue : Issue) : Compile Unit :=
  modify fun s => { s with issues := s.issues.push issue }

def fail (failure : Failure) (span : Span) : Compile Unit := report (.failure failure span)

def warn (warning : Warning) (span : Span) : Compile Unit := report (.warning warning span)

def failAll (failures : List Failure) (span : Span) : Compile Unit :=
  failures.forM fun failure => fail failure span

def warnUnused (site : Site) (span : Span) : Compile Unit :=
  if site.unit.options.warnUnusedValues then warn .unusedValue span else pure ()

def warnUnreachable (site : Site) (span : Span) : Compile Unit :=
  if site.unit.options.warnUnreachableCode then warn .unreachableCode span else pure ()

def modifyFrame (f : Frame → Frame) : Compile Unit :=
  modify fun s => { s with current := f s.current }

def modifyScopes (f : ScopeStack → ScopeStack) : Compile Unit :=
  modifyFrame fun frame => { frame with scopes := f frame.scopes }

def markInitialized (slot : Nat) : Compile Unit := modifyScopes (·.markInitialized slot)

/-- Take a step of the scopes that may fail. A failure is reported, and leaves the scopes as they
are. -/
def allocate (step : ScopeStack → Except Failure (Nat × ScopeStack)) (span : Span) :
    Compile (Option Nat) := do
  match step (← get).current.scopes with
  | .ok (slot, scopes) =>
    modifyScopes fun _ => scopes
    return some slot
  | .error failure =>
    fail failure span
    return none

def declareLocal (name : String) (mutable : Bool) (span : Span) : Compile (Option Nat) :=
  allocate (·.declare name mutable) span

/-- A slot for an intermediate value. -/
def declareHidden (purpose : String) (span : Span) : Compile (Option Nat) :=
  allocate (·.declareHidden purpose) span

def addToPool (value : Value) : Compile (Except Failure Nat) :=
  modifyGet fun s =>
    let { issues, current, enclosing, members, records, imports } := s
    let { isClosure, ivars, pool, scopes, captures } := current
    let (index, pool) := pool.add value
    let current : Frame := ⟨isClosure, ivars, pool, scopes, captures⟩
    (index, ⟨issues, current, enclosing, members, records, imports⟩)

/-- The index of a constant in the pool of the current function. Where it cannot be added, that is
reported, and the index is that of nil. -/
def addConstant (value : Value) (span : Span) : Compile UInt16 := do
  match ← addToPool value with
  | .ok index => return UInt16.ofNat index
  | .error failure =>
    fail failure span
    return 0

/-- Compile a function of its own: what was made in it, and the function at its end. What it imports
is gone afterwards. -/
def inFunction {α : Type} (isClosure : Bool) (ivars : IvarAccess) (body : Compile α) :
    Compile (α × Frame) := do
  let imports := (← get).imports
  modify fun s => { s with
    current := .new isClosure ivars
    enclosing := s.current :: s.enclosing
    imports := s.imports.push }
  let made ← body
  let finished := (← get).current
  modify fun s => { s with
    current := s.enclosing.head?.getD (.new false .forbidden)
    enclosing := s.enclosing.tail
    imports := imports }
  return (made, finished)

end Compile

end StackCode
