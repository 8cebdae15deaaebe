import StackCode.Compile.Variable

/-!
# Declarations in code

Namespaces are recorded, and methods, attributes and aliases are defined, before the statements of a
unit run. What is compiled here is put aside for that.
-/

namespace StackCode

/-- What a member is defined on. -/
structure DefinitionTarget where
  fullName : String
  singleton : Bool
  /-- How methods reach instance variables. -/
  ivars : IvarAccess
deriving DecidableEq, Repr

def Site.definitionTarget? (site : Site) : Option DefinitionTarget :=
  match site.context with
  | .topLevel => some ⟨objectName, false, .forbidden⟩
  | .inNamespace .class _ => some ⟨site.fullName, false, .fixed site.fullName false⟩
  | .inNamespace .mixin _ => some ⟨site.fullName, false, .byName site.fullName⟩
  | .inNamespace .module _ => some ⟨site.fullName, true, .fixed site.fullName true⟩
  | .inNamespace .interface _ => none
  | .inSingleton _ _ => some ⟨site.fullName, true, .fixed site.fullName true⟩
  | .inBody => none

namespace Compile

/-- Whether a declaration may stand where it does. If not, that is reported. -/
def checkDeclaration (site : Site) (declaration : Declaration) (span : Span) : Compile Bool := do
  if site.context.permits declaration then
    return true
  else
    fail (.illegalConstruct declaration site.context) span
    return false

/-- Make code with the pool of the member definitions, and put it behind them. -/
def inMembers (body : Compile Code) : Compile Unit := do
  let swapPools (s : CompileState) : CompileState :=
    { s with
      current := { s.current with pool := s.members.pool }
      members := { s.members with pool := s.current.pool } }
  modify swapPools
  let code ← body
  modify fun s =>
    let s := swapPools s
    { s with members := { s.members with code := s.members.code ++ code } }

def loadTarget (target : DefinitionTarget) (span : Span) : Compile Code := do
  let owner ← getConst target.fullName span
  return if target.singleton then owner ++ Code.plain span .getSingleton else owner

def defineMethod (target : DefinitionTarget) (name : String) (function : CompiledFunction)
    (span : Span) : Compile Unit :=
  inMembers do
    let owner ← loadTarget target span
    let function ← loadValue (.function function) span
    let name ← loadSymbol name span
    return owner ++ function ++ name ++ Code.plain span .defMethod

def defineGetter (target : DefinitionTarget) (name : String) (span : Span) : Compile Code := do
  let owner ← loadTarget target span
  let name ← loadSymbol name span
  return owner ++ name ++ Code.plain span .defGetter

def defineSetter (target : DefinitionTarget) (name : String) (span : Span) : Compile Code := do
  let owner ← loadTarget target span
  let name ← loadSymbol name span
  return owner ++ name ++ Code.plain span .defSetter

def defineAttribute (target : DefinitionTarget) (kind : AttributeKind) (name : String)
    (span : Span) :
    Compile Code := do
  match kind with
  | .getter => defineGetter target name span
  | .setter => defineSetter target name span
  | .accessor =>
    let getter ← defineGetter target name span
    let setter ← defineSetter target name span
    return getter ++ setter

def defineAttributes (site : Site) (kind : AttributeKind) (entries : List Attribute) (span : Span) :
    Compile Unit := do
  if ← checkDeclaration site kind.declaration span then
    match site.definitionTarget? with
    | none => return
    | some target =>
      inMembers <| entries.foldlM (fun code entry =>
        return code ++ (← defineAttribute target kind entry.name span)) #[]

def defineAlias (target : DefinitionTarget) (entry : Alias) (span : Span) : Compile Code := do
  let owner ← loadTarget target span
  let newName ← loadSymbol entry.newName span
  let oldName ← loadSymbol entry.oldName span
  return owner ++ newName ++ oldName ++ Code.plain span .defMethodAlias

def defineAliases (site : Site) (entries : List Alias) (span : Span) : Compile Unit := do
  if ← checkDeclaration site .aliases span then
    match site.definitionTarget? with
    | none => return
    | some target =>
      inMembers <| entries.foldlM (fun code entry =>
        return code ++ (← defineAlias target entry span)) #[]

/-- Take in a `using` statement. -/
def useImports (site : Site) (entries : List Using) (span : Span) : Compile Unit := do
  let (imports, failures) := Imports.use site.nesting site.unit.lookup entries (← get).imports
  modify fun s => { s with imports := imports }
  failAll failures span

/-- Note that a namespace is created or reopened, unless that is noted already. -/
def recordNamespace (record : NamespaceRecord) : Compile Unit :=
  modify fun s =>
    if s.records.contains record.fullName then s
    else { s with records := s.records.insert record.fullName record }

end Compile

end StackCode
