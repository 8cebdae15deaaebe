import StackCode.Compile.Emit

/-!
# Variables and instance variables

## Design Notes

A name that a closure does not declare is looked up in the function around it, and so on as long as
the function just searched is a closure. Every closure on the way captures the variable, from the
place where the function around it keeps it.
-/

namespace StackCode

structure Variable where
  place : Place
  mutable : Bool
  initialized : Bool
deriving DecidableEq, Repr

namespace Variable

def ofBinding (b : Binding) : Variable := ⟨.local b.slot, b.mutable, b.initialized⟩

/-- Whether the function declares it itself. -/
def isLocal (v : Variable) : Bool :=
  match v.place with
  | .local _ => true
  | .upvalue _ => false

end Variable

/-- Capture a variable that the enclosing function sees: how the closure itself sees it. -/
def Frame.capture (frame : Frame) (name : String) (outer : Variable) :
    Except Failure (Option Variable) × Frame :=
  match frame.captures.capture name outer.place outer.mutable with
  | .ok (index, captures) =>
    (.ok (some { outer with place := .upvalue index }), { frame with captures := captures })
  | .error failure => (.error failure, frame)

/-- Capture a variable of the functions around a function, innermost first, with what becomes of
them. -/
def findUpvalue (name : String) :
    Frame → List Frame → Except Failure (Option Variable) × Frame × List Frame
  | frame, [] => (.ok none, frame, [])
  | frame, parent :: outer =>
    if frame.isClosure then
      match parent.scopes.lookup? name with
      | some b =>
        let parent := { parent with scopes := parent.scopes.markCaptured b.slot }
        let (found, frame) := frame.capture name (.ofBinding b)
        (found, frame, parent :: outer)
      | none =>
        match findUpvalue name parent outer with
        | (.ok (some v), parent, outer) =>
          let (found, frame) := frame.capture name v
          (found, frame, parent :: outer)
        | (found, parent, outer) => (found, frame, parent :: outer)
    else (.ok none, frame, parent :: outer)

namespace Compile

/-! ### Variables -/

def resolveVariable (name : String) (span : Span) : Compile (Option Variable) := do
  let s ← get
  match s.current.scopes.lookup? name with
  | some b => return some (.ofBinding b)
  | none =>
    let (found, current, enclosing) := findUpvalue name s.current s.enclosing
    set { s with current := current, enclosing := enclosing }
    match found with
    | .ok v => return v
    | .error failure =>
      fail failure span
      return none

def getPlace (place : Place) (span : Span) : Compile Code :=
  match place with
  | .local slot => indexed .getLocal slot span
  | .upvalue index => indexed .getUpvalue index span

/-- Store the value on the stack in a place, and keep it. -/
def setPlace (place : Place) (span : Span) : Compile Code := do
  match place with
  | .local slot =>
    let code ← indexed .setLocal slot span
    markInitialized slot
    return code
  | .upvalue index => indexed .setUpvalue index span

def getVariable (name : String) (span : Span) : Compile Code := do
  match ← resolveVariable name span with
  | some v =>
    if !v.initialized then fail (.uninitialisedLocal name) span
    getPlace v.place span
  | none =>
    fail (.undefinedLocal name) span
    return .placeholder span

/-- Assign to a variable. A `val` without a value takes one assignment, in the function that
declares it. -/
def assignVariable (name : String) (operator : Option BinaryOp) (span : Span)
    (value : Compile Code) :
    Compile Code := do
  match ← resolveVariable name span with
  | none =>
    fail (.undefinedLocal name) span
    value
  | some v =>
    let isFirst := v.isLocal && !v.initialized && operator.isNone
    if !v.mutable && !isFirst then fail (.immutableAssignment name) span
    let assigned ←
      match operator with
      | some op =>
        if !v.initialized then fail (.uninitialisedLocal name) span
        let old ← getPlace v.place span
        let value ← value
        pure (old ++ value ++ Code.plain span (.binary op))
      | none => value
    return assigned ++ (← setPlace v.place span)

/-- Store the value on the stack in a new variable, and drop it. A variable that cannot be declared
is reported, and the value is dropped. -/
def bindLocal (name : String) (mutable : Bool) (span : Span) : Compile Code := do
  match ← declareLocal name mutable span with
  | some slot =>
    let code ← setPlace (.local slot) span
    return code ++ Code.plain span .pop
  | none => return .plain span .pop

/-! ### Instance variables -/

/-- How an instance variable is addressed. -/
inductive IvarOperand where
  | slot (index : Nat)
  /-- The symbol's index in the pool. -/
  | name (index : UInt16)

/-- How an instance variable is addressed from the current function. -/
def ivarOperand (site : Site) (name : String) (span : Span) : Compile (Option IvarOperand) := do
  match (← get).current.ivars with
  | .fixed fullName singleton =>
    match (site.unit.table? fullName singleton).bind (·.index? name) with
    | some slot => return some (.slot slot)
    | none =>
      fail (.undefinedIvar name) span
      return none
  | .byName fullName =>
    if (site.unit.table? fullName false).any (·.contains name) then
      return some (.name (← addConstant (.symbol name) span))
    else
      fail (.undefinedIvar name) span
      return none
  | .forbidden =>
    fail .ivarsUnavailable span
    return none

def getIvarOperand (operand : Option IvarOperand) (span : Span) : Compile Code :=
  match operand with
  | some (.slot index) => indexed .getIvar index span
  | some (.name index) => return .one span (.indexed .getIvarName index)
  | none => return .placeholder span

/-- Store the value on the stack in an instance variable, and keep it. -/
def setIvarOperand (operand : Option IvarOperand) (span : Span) : Compile Code :=
  match operand with
  | some (.slot index) => indexed .setIvar index span
  | some (.name index) => return .one span (.indexed .setIvarName index)
  | none => return #[]

def getIvar (site : Site) (name : String) (span : Span) : Compile Code := do
  getIvarOperand (← ivarOperand site name span) span

def assignIvar (site : Site) (name : String) (operator : Option BinaryOp) (span : Span)
    (value : Compile Code) : Compile Code := do
  let operand ← ivarOperand site name span
  let assigned ←
    match operator with
    | some op =>
      let old ← getIvarOperand operand span
      let value ← value
      pure (old ++ value ++ Code.plain span (.binary op))
    | none => value
  return assigned ++ (← setIvarOperand operand span)

/-! ### Constants -/

def getPath (site : Site) (path : Path) (span : Span) : Compile Code := do
  match resolve (← get).imports site.nesting site.unit.lookup path with
  | .ok fullName => getConst fullName span
  | .error failure =>
    fail failure span
    return .placeholder span

end Compile

end StackCode
