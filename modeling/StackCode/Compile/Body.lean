import StackCode.Compile.Member
import StackCode.Compile.Pattern

/-!
# Code for expressions and statements

## Design Notes

Every failure is reported and compilation goes on with something in its place, so that one run finds
all of them. Statements behind a `return` are compiled like others.
-/

namespace StackCode

open Compile

/-! ### Parameters -/

/-- Declare parameters. The slots of those that got one are given in their order. -/
def declareParams (seen : NameTable) (seenOptional : Bool) (slots : Array (Option Nat)) :
    List Parameter → Compile (List (Option Nat))
  | [] => return slots.toList
  | param :: rest => do
    let isRepeated := seen.contains param.name
    if isRepeated then fail (.duplicateParameter param.name) param.span
    let slot ←
      if isRepeated then declareHidden param.name param.span
      else declareLocal param.name true param.span
    if let some slot := slot then markInitialized slot
    if param.default.isNone && seenOptional then
      fail (.requiredAfterOptional param.name) param.span
    declareParams (seen.insert param.name) (seenOptional || param.default.isSome)
      (slots.push slot) rest

def defaultValue (slot : Nat) (span : Span) (value : Compile Code) : Compile Code := do
  let argument ← indexed .getLocal slot span
  let value ← value
  let store ← indexed .setLocal slot span
  let value := value ++ store ++ Code.plain span .pop
  let skip ← jump .unlessMissing value.byteSize span span
  return argument ++ skip ++ value

/-! ### Constants and namespaces -/

def staticLiteral? : Expr → Option Value
  | .literal _ .nil => some .nil
  | .literal _ (.int n) => some (.int n)
  | .literal _ (.float x) => some (.float x)
  | .literal _ (.string s) => some (.string s)
  | .literal _ (.symbol s) => some (.symbol s)
  | _ => none

def defineConstant (site : Site) (name : String) (literal : Option Value) (valueSpan span : Span)
    (value : Compile Code) : Compile Code := do
  if ← checkDeclaration site .constant span then
    let owner ← getConst site.fullName span
    let name ← loadSymbol name span
    let value ←
      match literal with
      | some literal => loadValue literal valueSpan
      | none => value
    return owner ++ name ++ value ++ Code.plain span .defConst
  else
    return (← value) ++ Code.plain span .pop

/-- The namespace that a declaration opens, as the unit has it: its parent, its full name and its
name. -/
def Site.opened? (site : Site) (kind : NamespaceKind) (target : Option (String × String)) :
    Option (String × String × String) := do
  let (parent, fullName) ← target
  let ns ← site.unit.declared.get? fullName
  if ns.kind = kind then some (parent, fullName, ns.name) else none

/-- Declare a namespace. Its body is a function of its own, and is run only if it does anything. -/
def declareNamespace (site : Site) (kind : NamespaceKind) (path : Path) (runs : Bool) (span : Span)
    (body : Site → Compile Code) : Compile Code := do
  let legal ← checkDeclaration site (.namespace kind) span
  let target := (declarationTarget site.nesting site.unit.lookup path).toOption
  let opened := site.opened? kind target
  let fullName := (target.map Prod.snd).getD site.fullName
  if let (true, some (parent, fullName, name)) := (legal, opened) then
    recordNamespace ⟨fullName, parent, name, kind, span⟩
  let (code, frame) ← inFunction false (.fixed fullName true)
    (body (site.inNamespace fullName kind legal))
  let code := code ++ Code.plain span.ending .pushNil ++ Code.plain span.ending .ret
  if legal && opened.isSome && runs then
    let function := frame.finish ("<namespace: " ++ fullName ++ ">") site.unit.options.file
      span 0 0 code
    let owner ← getConst fullName span
    let function ← loadValue (.function function) span
    return owner ++ function ++ Code.plain span .initNamespace
  else
    return #[]

/-- Declare a method. It is compiled also where it may not stand. -/
def declareMethod (site : Site) (name : String) (params : List Parameter) (span : Span)
    (body : Site → Compile Code) : Compile Unit := do
  let legal ← checkDeclaration site .method span
  let target := if legal then site.definitionTarget? else none
  let ivars := (target.map DefinitionTarget.ivars).getD (← get).current.ivars
  let (code, frame) ← inFunction false ivars (body site.inBody)
  if let some target := target then
    let function := frame.finish name site.unit.options.file span (requiredCount params)
      (optionalCount params) (code ++ Code.plain span.ending .ret)
    defineMethod target name function span

def makeClosure (site : Site) (params : List Parameter) (span : Span) (body : Site → Compile Code) :
    Compile Code := do
  let (code, frame) ← inFunction true (← get).current.ivars (body site.inBody)
  let function := frame.finish "<closure>" site.unit.options.file span (requiredCount params)
    (optionalCount params) (code ++ Code.plain span.ending .ret)
  let index ← addConstant (.function function) span
  return .one span (.closure index frame.captures.sources)

/-- The kind of namespace that a singleton block at a place belongs to. -/
def Site.singletonOwner (site : Site) : NamespaceKind :=
  match site.context with
  | .inNamespace kind _ => kind
  | .inSingleton owner _ => owner
  | .topLevel => .class
  | .inBody => .class

def singletonBlock (site : Site) (span : Span) (body : Site → Compile Code) : Compile Code := do
  let legal ← checkDeclaration site .singleton span
  inScope span (body (site.within (.inSingleton site.singletonOwner legal)))

/-! ### Expressions and statements -/

mutual

/-- The code that pushes the value of an expression. -/
def compileExpr (site : Site) : Expr → Compile Code
  | .literal span value => loadLiteral value span
  | .self span => return .plain span .pushSelf
  | .sequence span .list items => do
    let code ← compileExprs site #[] items
    return code ++ (← indexed .newList items.length span)
  | .sequence span .tuple items => do
    let code ← compileExprs site #[] items
    return code ++ (← indexed .newTuple items.length span)
  | .map span entries => do
    let code ← compileEntries site #[] entries
    return code ++ (← indexed .newMap entries.length span)
  | .local span name => getVariable name span
  | .ivar span name => getIvar site name span
  | .constant span path => getPath site path span
  | .assign span (.local name) operator value =>
    assignVariable name operator span (compileExpr site value)
  | .assign span (.ivar name) operator value =>
    assignIvar site name operator span (compileExpr site value)
  | .binary span operator left right => do
    let left ← compileExpr site left
    let right ← compileExpr site right
    return left ++ right ++ Code.plain span (.binary operator)
  | .unary span operator operand => do
    let operand ← compileExpr site operand
    return operand ++ Code.plain span (.unary operator)
  | .logical span .and left right =>
    shortCircuit .whenFalseKeep span (compileExpr site left) (compileExpr site right)
  | .logical span .or left right =>
    shortCircuit .whenTrueKeep span (compileExpr site left) (compileExpr site right)
  | .block span body => inScope span (compileBlock site.inBody span false false #[] body)
  | .conditional span condition thenBranch elseBranch =>
    conditional span (compileExpr site condition)
      (inScope span (compileBlock site.inBody span false false #[] thenBranch))
      (compileElse site span elseBranch)
  | .switch span subject cases elseBranch =>
    inScope span do
      let value ← compileExpr site subject
      let slot ← declareHidden "switch subject" span
      let store ←
        match slot with
        | some slot => indexed .setLocal slot span
        | none => pure #[]
      let arms ← compileCases site slot #[] cases
      let elseBranch ← compileElse site span elseBranch
      let branches ← switch span arms elseBranch
      return value ++ store ++ Code.plain span .pop ++ branches
  | .closure span params body =>
    makeClosure site params span fun site => do
      let slots ← declareParams .empty false #[] params
      let code ← compileDefaults site #[] params slots
      compileBlock site span false false code body
  | .methodCall span receiver name arguments => do
    let receiver ← compileExpr site receiver
    let code ← compileExprs site receiver arguments
    return code ++ (← send .method name arguments.length span)
  | .selfCall span name arguments => do
    let code ← compileExprs site #[] arguments
    return code ++ (← send .self name arguments.length span)
  | .call span callee arguments => do
    let callee ← compileExpr site callee
    let code ← compileExprs site callee arguments
    return code ++ Code.one span (.call (← argumentCount arguments.length span))
  | .subscript span receiver index => do
    let receiver ← compileExpr site receiver
    let index ← compileExpr site index
    return receiver ++ index ++ Code.plain span .subscript
  | .new span className arguments => do
    let className ← getPath site className span
    let code ← compileExprs site className arguments
    return code ++ Code.one span (.instantiate (← argumentCount arguments.length span))
  | .raise span error => do
    let error ← compileExpr site error
    return error ++ Code.plain span .raise

/-- The code that pushes the values of some expressions, behind other code. -/
def compileExprs (site : Site) : Code → List Expr → Compile Code
  | code, [] => return code
  | code, e :: rest => do
    let more ← compileExpr site e
    compileExprs site (code ++ more) rest

/-- The code that pushes the keys and values of some entries, behind other code. -/
def compileEntries (site : Site) : Code → List (Expr × Expr) → Compile Code
  | code, [] => return code
  | code, (key, value) :: rest => do
    let key ← compileExpr site key
    let value ← compileExpr site value
    compileEntries site (code ++ key ++ value) rest

/-- The code of a last branch, which pushes nil if it is missing. -/
def compileElse (site : Site) (span : Span) : Option (List Stmt) → Compile Code
  | none => return .plain span .pushNil
  | some body => inScope span (compileBlock site.inBody span false false #[] body)

/-- The arms of a switch, behind other arms. There is no slot if the subject could not get one. -/
def compileCases (site : Site) (slot : Option Nat) : Array Arm → List SwitchCase →
    Compile (List Arm)
  | arms, [] => return arms.toList
  | arms, ⟨pattern, body, span⟩ :: rest => do
    let test :=
      match slot with
      | some slot => patternTest pattern slot false
      | none => return .plain span .pushFalse
    let next ← arm span test (compileBlock site.inBody span false false #[] body)
    compileCases site slot (arms.push next) rest

/-- The code that gives parameters their default values, behind other code. -/
def compileDefaults (site : Site) : Code → List Parameter → List (Option Nat) → Compile Code
  | code, ⟨_, some value, _, span⟩ :: params, some slot :: slots => do
    let more ← defaultValue slot span (compileExpr site value)
    compileDefaults site (code ++ more) params slots
  | code, _ :: params, _ :: slots => compileDefaults site code params slots
  | code, _, _ => return code

/-- The code that runs some statements and pushes the value of the last one, behind other code. It
is nil if the last one is no expression. `returned` says whether a `return` came before, and
`warned` whether a warning of unreachable code did. -/
def compileBlock (site : Site) (span : Span) (returned warned : Bool) :
    Code → List Stmt → Compile Code
  | code, [] => return code ++ Code.plain span .pushNil
  | code, [.expression last value] => do
    if returned then warnUnreachable site last
    let value ← compileExpr site value
    return code ++ value
  | code, stmt :: rest => do
    let isLate := returned && !warned && stmt.producesCode
    if isLate then warnUnreachable site stmt.span
    let more ← compileStmt site stmt
    compileBlock site span (returned || stmt.isReturn) (warned || isLate) (code ++ more) rest

def compileStmts (site : Site) (returned warned : Bool) : Code → List Stmt → Compile Code
  | code, [] => return code
  | code, stmt :: rest => do
    let isLate := returned && !warned && stmt.producesCode
    if isLate then warnUnreachable site stmt.span
    let more ← compileStmt site stmt
    compileStmts site (returned || stmt.isReturn) (warned || isLate) (code ++ more) rest

def compileOptional (site : Site) (span : Span) : Option Expr → Compile Code
  | none => return .plain span .pushNil
  | some value => compileExpr site value

def compileStmt (site : Site) : Stmt → Compile Code
  | .expression span value => do
    let code ← compileExpr site value
    if value.isPure then warnUnused site value.span
    return code ++ Code.plain span .pop
  | .ret span value => do
    let code ← compileOptional site span value
    return code ++ Code.plain span .ret
  | .loop span condition body =>
    loop span (compileExpr site condition)
      (inScope span (compileStmts site.inBody false false #[] body))
  | .variable span name mutable _ none => do
    let _ ← declareLocal name mutable span
    return #[]
  | .variable span name mutable _ (some initializer) => do
    let value ← compileExpr site initializer
    return value ++ (← bindLocal name mutable span)
  | .patternVariable span pattern mutable initializer =>
    patternDeclaration pattern mutable span (compileExpr site initializer)
  | .constant span name _ value =>
    defineConstant site name (staticLiteral? value) value.span span (compileExpr site value)
  | .namespace span kind path _ body =>
    declareNamespace site kind path (Stmt.anyRunsAtDeclaration body) span fun site =>
      compileStmts site false false #[] body
  | .singleton span body =>
    singletonBlock site span fun site => compileStmts site false false #[] body
  | .method span name params body => do
    declareMethod site name params span fun site => do
      let slots ← declareParams .empty false #[] params
      let code ← compileDefaults site #[] params slots
      compileBlock site span false false code body
    return #[]
  | .signature span _ _ => do
    let _ ← checkDeclaration site .signature span
    return #[]
  | .attribute span kind entries => do
    defineAttributes site kind entries span
    return #[]
  | .aliases span entries => do
    defineAliases site entries span
    return #[]
  | .ivar span _ _ => do
    let _ ← checkDeclaration site .ivar span
    return #[]
  | .include span _ => do
    let _ ← checkDeclaration site .include span
    return #[]
  | .using span entries => do
    useImports site entries span
    return #[]

end

end StackCode
