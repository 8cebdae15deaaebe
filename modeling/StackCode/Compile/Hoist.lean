import StackCode.Compile.Member

/-!
# What runs before the statements of a unit

The namespaces of a unit, the layouts of their instance variables and their members are defined
before any statement runs, each by a function of its own.
-/

namespace StackCode

open Compile

def createNamespace (record : NamespaceRecord) : Compile Code := do
  let parent ← getConst record.parent record.span
  let name ← loadSymbol record.name record.span
  return parent ++ name ++ Code.one record.span (.defNamespace record.kind)

def linkSuperclass (ns : DeclaredNamespace) (span : Span) : Compile Code := do
  match ns.superclass with
  | some superclass =>
    if ns.setsSuperclass then
      let owner ← getConst ns.fullName span
      let superclass ← getConst superclass span
      return owner ++ superclass ++ Code.plain span .setSuperclass
    else return #[]
  | none => return #[]

def linkMixin (fullName : String) (span : Span) (mixin : String) : Compile Code := do
  let owner ← getConst fullName span
  let mixin ← getConst mixin span
  return owner ++ mixin ++ Code.plain span .includeMixin

/-- Put the code of some steps one behind the other. -/
def sequence {α : Type} (step : α → Compile Code) (items : List α) : Compile Code :=
  items.foldlM (fun code item => return code ++ (← step item)) #[]

def linkNamespace (ns : DeclaredNamespace) : Compile Code := do
  let span := ns.superclassSpan.getD ns.span
  let superclass ← linkSuperclass ns span
  return superclass ++ (← sequence (linkMixin ns.fullName span) ns.mixins)

/-- A function that takes no arguments and returns nil. -/
def definitions (name : String) (unit : UnitInfo) (span : Span) (body : Compile Code) :
    Compile CompiledFunction := do
  let (code, frame) ← inFunction false .forbidden body
  let code := code ++ Code.plain span .pushNil ++ Code.plain span .ret
  return frame.finish name unit.options.file span 0 0 code

/-- The function that creates the namespaces of a unit, and links superclasses and mixins. -/
def namespaceDefinitions (unit : UnitInfo) (span : Span) : Compile (Option CompiledFunction) := do
  let records := (← get).records
  if records.size = 0 then return none
  else
    let recorded := unit.declared.namespaces.toValues.filter fun ns => records.contains ns.fullName
    return some (← definitions "<namespaceDefinitions>" unit span do
      let creations ← sequence createNamespace records.toValues
      return creations ++ (← sequence linkNamespace recorded))

def registerLayout (unit : UnitInfo) (span : Span) (change : LayoutChange) : Compile Code := do
  match unit.layouts.table? change.fullName change.singleton with
  | none => return #[]
  | some table =>
    let span := ((unit.declared.get? change.fullName).map DeclaredNamespace.span).getD span
    let owner ← getConst change.fullName span
    let owner := if change.singleton then owner ++ Code.plain span .getSingleton else owner
    let table ← loadValue (.ivars table) span
    return owner ++ table ++ Code.plain span .defIvars

def ivarDefinitions (unit : UnitInfo) (span : Span) : Compile (Option CompiledFunction) := do
  if unit.layouts.changes.isEmpty then return none
  else
    return some (← definitions "<ivarIndices>" unit span
      (sequence (registerLayout unit span) unit.layouts.changes))

def memberDefinitions (unit : UnitInfo) (span : Span) : Compile (Option CompiledFunction) := do
  let members := (← get).members
  if members.code.isEmpty then return none
  else
    let frame := { Frame.new false .forbidden with pool := members.pool }
    let code := members.code ++ Code.plain span.ending .pushNil ++ Code.plain span.ending .ret
    return some (frame.finish "<methodDefinitions>" unit.options.file span 0 0 code)

def hoisted (unit : UnitInfo) (span : Span) : Compile (List CompiledFunction) := do
  let namespaces ← namespaceDefinitions unit span
  let ivars ← ivarDefinitions unit span
  let members ← memberDefinitions unit span
  return [namespaces, ivars, members].filterMap id

def runHoisted (span : Span) (function : CompiledFunction) : Compile Code := do
  let function ← loadValue (.function function) span
  return function ++ Code.plain span .exec ++ Code.plain span .pop

def prologue (unit : UnitInfo) (span : Span) : Compile Code := do
  sequence (runHoisted span) (← hoisted unit span)

end StackCode
