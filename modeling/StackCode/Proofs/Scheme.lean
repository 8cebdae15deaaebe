import StackCode.Compile.Unit
import StackCode.Proofs.Flow

/-!
# Schemes of functions

A scheme is what the text of a function asks its code to do, with variables in place of slots and
indices. An environment is handed down to every expression, and a declaration changes it for the
statements behind its own. A name denotes the innermost variable that is visible where it stands, in
the function it stands in or else in the function around that, and so on as long as the function
just searched is a closure (`Level.resolve?`).

Every mention of a variable of another function is noted, so that a function captures those that are
mentioned between its start and its end and were declared before it (`Scheme.captured`), each of
them once.
-/

namespace StackCode

/-! ## Variables -/

/-- A variable of the text. -/
structure Local where
  /-- The name it is found by; one that holds an intermediate value has none. -/
  name : Option String
  slot : Nat
  /-- How many variables the unit declares before it. No two variables of a unit have the same. -/
  id : Nat
deriving DecidableEq, Repr

/-- A function around a place, with the variables that are visible there. -/
structure Level where
  /-- Whether it sees the variables of the function around it. -/
  isClosure : Bool
  /-- How many variables the unit declares before it. -/
  first : Nat
  /-- How many mentions were noted before it. -/
  start : Nat
  /-- The variables of the open scopes. Scopes are listed innermost first, their variables latest
  first. -/
  scopes : List (List Local)

namespace Level

/-- The visible variables of a function, the innermost and latest first. -/
def locals (level : Level) : List Local := level.scopes.flatten

/-- The innermost variable of a name. -/
def find? (level : Level) (name : String) : Option Local :=
  level.locals.find? (·.name = some name)

/-- The variable that a name denotes in a function, or else in the functions around it, as long
as the function just searched is a closure. -/
def resolve? (name : String) : Level → List Level → Option Local
  | here, [] => here.find? name
  | here, parent :: outer =>
    match here.find? name with
    | some l => some l
    | none => if here.isClosure then parent.resolve? name outer else none

/-- What a function mentions of the variables of the functions around it, where `mentions` are
all mentions so far. -/
def mentioned (level : Level) (mentions : List Local) : List Local :=
  (mentions.drop level.start).filter (·.id < level.first)

end Level

/-- What is visible at a place. -/
structure Env where
  /-- The function that the place is in. -/
  here : Level
  /-- The functions around it, innermost first. -/
  outer : List Level

namespace Env

/-- The variables that have a slot at a place. -/
def live (env : Env) : List Local := env.here.locals

/-- Open a scope. -/
def enter (env : Env) : Env := { env with here.scopes := [] :: env.here.scopes }

/-- Declare a variable. -/
def declared (env : Env) (l : Local) : Env :=
  match env.here.scopes with
  | [] => { env with here.scopes := [[l]] }
  | scope :: outer => { env with here.scopes := (l :: scope) :: outer }

end Env

/-! ## Operations -/

mutual

/-- An operation, which leaves open how it is written. -/
inductive Op where
  | plain (op : PlainOp)
  | int (value : Int8)
  | value (value : Value)
  | function (scheme : Scheme)
  /-- Makes a closure, where some variables are live. -/
  | closure (live : List Local) (scheme : Scheme)
  /-- Pushes the constant with a full name, if that is known from the text alone. -/
  | constant (fullName : Option String)
  | getIvar
  | setIvar
  /-- Reads a variable, where some are live. -/
  | get (live : List Local) (l : Local)
  /-- Writes a variable, where some are live. -/
  | set (live : List Local) (l : Local)
  /-- Uses a name that denotes no variable. No instruction does that. -/
  | unbound
  /-- Ends what closures share with a slot, where some variables are live. -/
  | close (live : List Local) (l : Local)
  | sequence (kind : SequenceKind) (count : Nat)
  | map (count : Nat)
  | send (kind : CallKind) (name : String) (count : Nat)
  | call (count : Nat)
  | instantiate (count : Nat)
  | defNamespace (kind : NamespaceKind)
  | slice (front back : Nat)

/-- What a function does. -/
structure Scheme where
  /-- The mentions, in it and in the closures in it, of variables of the functions around it. -/
  mentions : List Local
  body : Flow Op

end

/-- The variables that a function captures: each once, in the order of their first mentions. -/
def Scheme.captured (scheme : Scheme) : List Local := scheme.mentions.eraseDups

/-- Read what a name denotes. -/
def Op.read (live : List Local) (found : Option Local) : Op := found.elim .unbound (.get live)

/-- Write what a name denotes. -/
def Op.write (live : List Local) (found : Option Local) : Op := found.elim .unbound (.set live)

/-- What is counted and noted on the way through a unit. -/
structure Progress where
  count : Nat
  /-- The mentions of variables of other functions. -/
  mentions : List Local
  /-- The definitions of members, which run before the statements. -/
  members : List Op
  /-- The namespaces that are created or reopened before the statements run. -/
  records : OrderedMap NamespaceRecord

/-- Before the first statement of a unit. -/
def Progress.start : Progress := ⟨0, [], [], .empty⟩

/-- A way through a part of a unit. -/
abbrev Gen := StateM Progress

namespace Gen

/-- Declare a variable in the innermost scope. It has the first slot that no other one has. -/
def declare (env : Env) (name : Option String) : Gen (Local × Env) := do
  let id := (← get).count
  let l : Local := ⟨name, env.live.length + 1, id⟩
  modify fun t => { t with count := id + 1 }
  return (l, env.declared l)

/-- The variable that a name denotes. That it is one of another function is noted. -/
def mention (env : Env) (name : String) : Gen (Option Local) := do
  let found := env.here.resolve? name env.outer
  if (env.here.find? name).isNone then
    modify fun t => { t with mentions := t.mentions ++ found.toList }
  return found

/-- A part in a scope of its own, what would close all its variables, and what ends the scope:
the variables that closures captured are closed, in the order of their declarations. -/
def inScope {α : Type} (env : Env) (part : Env → Gen (α × Env)) :
    Gen (α × List Op × List Op) := do
  let (a, inner) ← part env.enter
  let mentions := (← get).mentions
  let own := (inner.here.scopes.headD []).reverse
  let captured := own.filter (· ∈ mentions)
  return (a, own.map (.close inner.live), captured.map (.close inner.live))

/-- A part in a scope of its own, with what ends the scope. -/
def scope (env : Env) (part : Env → Gen (Flow Op × Env)) : Gen (Flow Op) := do
  let (block, closings, ending) ← inScope env part
  return .scope closings block ending

/-- The scheme of a function in the text. -/
def nested (env : Env) (isClosure : Bool) (body : Env → Gen (Flow Op × Env)) : Gen Scheme := do
  let t ← get
  let level : Level := ⟨isClosure, t.count, t.mentions.length, [[]]⟩
  let (flow, _) ← body ⟨level, env.here :: env.outer⟩
  return ⟨level.mentioned (← get).mentions, flow⟩

/-- Define members. -/
def define (operations : List Op) : Gen Unit :=
  modify fun t => { t with members := t.members ++ operations }

/-- Note that a namespace is created or reopened, unless that is noted already. -/
def record (record : NamespaceRecord) : Gen Unit :=
  modify fun t =>
    if t.records.contains record.fullName then t
    else { t with records := t.records.insert record.fullName record }

/-- Record a namespace that is opened. -/
def recordOpened (kind : NamespaceKind) (span : Span) : Option (String × String × String) → Gen Unit
  | some (parent, fullName, name) => record ⟨fullName, parent, name, kind, span⟩
  | none => return

/-- Declare parameters. -/
def params (env : Env) : List Parameter → Gen (List Local × Env)
  | [] => return ([], env)
  | param :: rest => do
    let (l, env) ← declare env (some param.name)
    let (others, env) ← params env rest
    return (l :: others, env)

end Gen

/-! ## Literals and members -/

/-- Push an integer. -/
def intOps (value : Int) : List Op :=
  if -128 ≤ value ∧ value ≤ 127 then [.int (Int8.ofInt value)]
  else [.value (.int (Int64.ofInt value))]

/-- Push a literal. -/
def Literal.ops : Literal → List Op
  | .nil => [.plain .pushNil]
  | .bool true => [.plain .pushTrue]
  | .bool false => [.plain .pushFalse]
  | .int n => intOps n.toInt
  | .float x => [.value (.float x)]
  | .string s => [.value (.string s)]
  | .symbol s => [.value (.symbol s)]

/-- Define members on a target, if there is one. -/
def Gen.defineOn (target : Option DefinitionTarget) (operations : DefinitionTarget → List Op) :
    Gen Unit :=
  match target with
  | some target => Gen.define (operations target)
  | none => return

namespace DefinitionTarget

/-- Push a target. -/
def ops (target : DefinitionTarget) : List Op :=
  .constant (some target.fullName) :: if target.singleton then [.plain .getSingleton] else []

/-- Define a method. -/
def methodOps (target : DefinitionTarget) (name : String) (scheme : Scheme) : List Op :=
  target.ops ++ [.function scheme, .value (.symbol name), .plain .defMethod]

/-- Define a getter or a setter. -/
def accessorOps (target : DefinitionTarget) (op : PlainOp) (name : String) : List Op :=
  target.ops ++ [.value (.symbol name), .plain op]

/-- Define an attribute. -/
def attributeOps (target : DefinitionTarget) (kind : AttributeKind) (name : String) : List Op :=
  match kind with
  | .getter => target.accessorOps .defGetter name
  | .setter => target.accessorOps .defSetter name
  | .accessor => target.accessorOps .defGetter name ++ target.accessorOps .defSetter name

/-- Define an alias. -/
def aliasOps (target : DefinitionTarget) (entry : Alias) : List Op :=
  target.ops ++ [.value (.symbol entry.newName), .value (.symbol entry.oldName),
    .plain .defMethodAlias]

end DefinitionTarget

/-! ## Patterns -/

/-- A part of a test. -/
inductive Check where
  | run (op : Op)
  /-- The popped value has to be truthy. -/
  | need

/-- Some operations, one behind the other. -/
def Check.ofOps (operations : List Op) : List Check := operations.map .run

/-- The flow of some checks. -/
def Flow.ofChecks : List Check → Flow Op
  | [] => .ops []
  | .run op :: rest => .ops [op] ++ ofChecks rest
  | .need :: rest => .require ++ ofChecks rest

/-- Where the value that a pattern tests comes from. -/
inductive Tested where
  | held (l : Local)
  | element (sequence : Local) (index : Int)
  | entry (map : Local) (key : Literal)

/-- Push what is tested. -/
def Tested.ops (live : List Local) : Tested → List Op
  | .held l => [.get live l]
  | .element sequence index => [.get live sequence] ++ intOps index ++ [.plain .subscript]
  | .entry map key => [.get live map] ++ key.ops ++ [.plain .subscript]

namespace Gen

/-- A variable that holds what is tested. -/
def hold (env : Env) : Tested → Gen (Local × List Op × Env)
  | .held l => return (l, [], env)
  | tested => do
    let (l, env) ← declare env none
    return (l, tested.ops env.live ++ [.set env.live l, .plain .pop], env)

/-- Bind what is on the stack to a name. -/
def bind (env : Env) (name : String) : Gen (List Op × Env) := do
  let (l, env) ← declare env (some name)
  return ([.set env.live l, .plain .pop], env)

/-- Bind the rest of a sequence. -/
def bindRest (env : Env) (sequence : Local) (leading trailing : Nat) (rest : Option Rest) :
    Gen (List Op × Env) := do
  match rest.bind Rest.binding with
  | none => return ([], env)
  | some name =>
    let (store, inner) ← bind env name
    return ([.get env.live sequence, .slice leading trailing] ++ store, inner)

end Gen

/-- A value is of a class. -/
def classChecks (live : List Local) (l : Local) (fullName : String) : List Check :=
  Check.ofOps [.get live l, .constant (some fullName), .plain .isA] ++ [.need]

/-- A sequence is as long as it must be. -/
def lengthChecks (live : List Local) (l : Local) (count : Nat) (hasRest : Bool) : List Check :=
  Check.ofOps ([.get live l, .plain .length] ++ intOps count ++
    [.plain (.binary (if hasRest then .greaterEqual else .equal))]) ++ [.need]

/-- A map has a key. -/
def keyChecks (live : List Local) (l : Local) (key : Literal) : List Check :=
  Check.ofOps ([.get live l] ++ key.ops ++ [.plain .hasKey]) ++ [.need]

namespace Pattern

mutual

/-- The parts of the test of a pattern. -/
def checks (env : Env) : Pattern → Tested → Gen (List Check × Env)
  | .wildcard _, _ => return ([], env)
  | .binding _ name, tested => do
    let (store, inner) ← Gen.bind env name
    return (Check.ofOps (tested.ops env.live ++ store), inner)
  | .literal _ value, tested =>
    return (Check.ofOps (tested.ops env.live ++ value.ops ++ [.plain (.binary .equal)]) ++
      [.need], env)
  | .sequence _ kind elements rest, tested => do
    let (l, held, env) ← Gen.hold env tested
    let count := elements.length
    let leading := (rest.map fun r => min r.position count).getD count
    let first := Check.ofOps held ++ classChecks env.live l (Compile.sequenceClass kind) ++
      lengthChecks env.live l count rest.isSome
    let (inside, env) ← elementChecks env l leading count 0 elements
    let (tail, env) ← Gen.bindRest env l leading (count - leading) rest
    return (first ++ inside ++ Check.ofOps tail, env)
  | .map _ entries, tested => do
    let (l, held, env) ← Gen.hold env tested
    let first := Check.ofOps held ++ classChecks env.live l mapName
    let (inside, env) ← entryChecks env l entries
    return (first ++ inside, env)

/-- The elements of a sequence match. -/
def elementChecks (env : Env) (l : Local) (leading count : Nat) :
    Nat → List Pattern → Gen (List Check × Env)
  | _, [] => return ([], env)
  | position, element :: rest => do
    let index : Int := if position < leading then position else (position : Int) - count
    let (first, env) ← checks env element (.element l index)
    let (others, env) ← elementChecks env l leading count (position + 1) rest
    return (first ++ others, env)

/-- The entries of a map match. -/
def entryChecks (env : Env) (l : Local) : List (Literal × Pattern) → Gen (List Check × Env)
  | [] => return ([], env)
  | (key, pattern) :: rest => do
    let hasKey := keyChecks env.live l key
    let (first, env) ← checks env pattern (.entry l key)
    let (others, env) ← entryChecks env l rest
    return (hasKey ++ first ++ others, env)

end

end Pattern

/-- Whether a check can fail. -/
def Check.canFail : Check → Bool
  | .need => true
  | .run _ => false

/-- The flow that pushes whether checks hold. -/
def Flow.test (checks : List Check) : Flow Op :=
  if checks.any Check.canFail then
    .attempt (ofChecks checks ++ .ops [.plain .pushTrue]) (.ops [.plain .pushFalse])
  else ofChecks checks ++ .ops [.plain .pushTrue]

/-- The flow of a pattern. -/
def Pattern.flow (env : Env) (pattern : Pattern) (l : Local) : Gen (Flow Op × Env) := do
  let (checks, env) ← pattern.checks env (.held l)
  return (.test checks, env)

/-- Take a value apart, or raise an error. -/
def Gen.takeApart (env : Env) (pattern : Pattern) (mutable : Bool) (value : Flow Op) :
    Gen (Flow Op × Env) := do
  let (l, env) ← declare env none
  let store : Flow Op := .ops [.set env.live l, .plain .pop]
  let (test, env) ← pattern.flow env l
  let throw : Flow Op := .ops [.constant (some patternErrorName),
    .value (.string (Compile.mismatchMessage mutable)), .instantiate 1, .plain .raise]
  return (value ++ store ++ test ++ .skip .whenTrue throw, env)

/-! ## Expressions and statements -/

/-- The kind of jump that leaves the right side of an operator out. -/
def LogicalOp.jump : LogicalOp → JumpKind
  | .and => .whenFalseKeep
  | .or => .whenTrueKeep

/-- The first arm whose test holds, or else the last branch. -/
def Flow.switch (arms : List (Flow Op × Flow Op)) (last : Flow Op) : Flow Op :=
  arms.foldr (fun arm rest => arm.1 ++ .choose arm.2 rest) last

mutual

/-- The flow of an expression. -/
def Expr.flow (site : Site) (env : Env) : Expr → Gen (Flow Op)
  | .literal _ value => return .ops value.ops
  | .self _ => return .ops [.plain .pushSelf]
  | .sequence _ kind items => do
    return (← Expr.flows site env items) ++ .ops [.sequence kind items.length]
  | .map _ entries => do
    return (← Expr.entryFlows site env entries) ++ .ops [.map entries.length]
  | .local _ name => do
    let l ← Gen.mention env name
    return .ops [.read env.live l]
  | .ivar _ _ => return .ops [.getIvar]
  | .constant _ _ => return .ops [.constant none]
  | .assign _ (.local name) operator value => do
    let l ← Gen.mention env name
    let value ← value.flow site env
    let assigned : Flow Op :=
      match operator with
      | some op => .ops [.read env.live l] ++ value ++ .ops [.plain (.binary op)]
      | none => value
    return assigned ++ .ops [.write env.live l]
  | .assign _ (.ivar _) operator value => do
    let value ← value.flow site env
    let assigned : Flow Op :=
      match operator with
      | some op => .ops [.getIvar] ++ value ++ .ops [.plain (.binary op)]
      | none => value
    return assigned ++ .ops [.setIvar]
  | .binary _ operator left right => do
    let left ← left.flow site env
    let right ← right.flow site env
    return left ++ right ++ .ops [.plain (.binary operator)]
  | .unary _ operator operand => do
    let operand ← operand.flow site env
    return operand ++ .ops [.plain (.unary operator)]
  | .logical _ operator left right => do
    let left ← left.flow site env
    let right ← right.flow site env
    return left ++ .skip operator.jump (.ops [.plain .pop] ++ right)
  | .block _ body => Gen.scope env fun env => Stmt.blockFlow site.inBody env body
  | .conditional _ condition thenBranch elseBranch => do
    let condition ← condition.flow site env
    let yes ← Gen.scope env fun env => Stmt.blockFlow site.inBody env thenBranch
    let no ← Stmt.elseFlow site env elseBranch
    return condition ++ .choose yes no
  | .switch _ subject cases elseBranch =>
    Gen.scope env fun env => do
      let value ← subject.flow site env
      let (l, env) ← Gen.declare env none
      let store : Flow Op := .ops [.set env.live l, .plain .pop]
      let arms ← Stmt.caseFlows site env l cases
      let last ← Stmt.elseFlow site env elseBranch
      return (value ++ store ++ .switch arms last, env)
  | .closure _ params body => do
    let scheme ← Gen.nested env true fun env => do
      let (locals, env) ← Gen.params env params
      let defaults ← Expr.defaultFlows site.inBody env params locals
      let (block, env) ← Stmt.blockFlow site.inBody env body
      return (defaults ++ block ++ .ops [.plain .ret], env)
    return .ops [.closure env.live scheme]
  | .methodCall _ receiver name arguments => do
    let receiver ← receiver.flow site env
    let arguments' ← Expr.flows site env arguments
    return receiver ++ arguments' ++ .ops [.send .method name arguments.length]
  | .selfCall _ name arguments => do
    let arguments' ← Expr.flows site env arguments
    return arguments' ++ .ops [.send .self name arguments.length]
  | .call _ callee arguments => do
    let callee ← callee.flow site env
    let arguments' ← Expr.flows site env arguments
    return callee ++ arguments' ++ .ops [.call arguments.length]
  | .subscript _ receiver index => do
    let receiver ← receiver.flow site env
    let index ← index.flow site env
    return receiver ++ index ++ .ops [.plain .subscript]
  | .new _ _ arguments => do
    let arguments' ← Expr.flows site env arguments
    return .ops [.constant none] ++ arguments' ++ .ops [.instantiate arguments.length]
  | .raise _ error => do
    let error ← error.flow site env
    return error ++ .ops [.plain .raise]

/-- The flow of expressions. -/
def Expr.flows (site : Site) (env : Env) : List Expr → Gen (Flow Op)
  | [] => return .ops []
  | e :: rest => do
    let first ← e.flow site env
    let others ← Expr.flows site env rest
    return first ++ others

/-- The flow of the entries of a map. -/
def Expr.entryFlows (site : Site) (env : Env) : List (Expr × Expr) → Gen (Flow Op)
  | [] => return .ops []
  | (key, value) :: rest => do
    let key ← key.flow site env
    let value ← value.flow site env
    let others ← Expr.entryFlows site env rest
    return key ++ value ++ others

/-- The flow of a last branch. -/
def Stmt.elseFlow (site : Site) (env : Env) : Option (List Stmt) → Gen (Flow Op)
  | none => return .ops [.plain .pushNil]
  | some body => Gen.scope env fun env => Stmt.blockFlow site.inBody env body

/-- The flow of the cases of a switch. -/
def Stmt.caseFlows (site : Site) (env : Env) (l : Local) :
    List SwitchCase → Gen (List (Flow Op × Flow Op))
  | [] => return []
  | ⟨pattern, body, _⟩ :: rest => do
    let ((test, block), closings, ending) ← Gen.inScope env fun env => do
      let (test, env) ← pattern.flow env l
      let (block, env) ← Stmt.blockFlow site.inBody env body
      return ((test, block), env)
    let others ← Stmt.caseFlows site env l rest
    return (test, .scope closings block ending) :: others

/-- The flow of the defaults of parameters. -/
def Expr.defaultFlows (site : Site) (env : Env) :
    List Parameter → List Local → Gen (Flow Op)
  | ⟨_, some value, _, _⟩ :: params, l :: locals => do
    let value ← value.flow site env
    let others ← Expr.defaultFlows site env params locals
    let store : Flow Op := .ops [.set env.live l, .plain .pop]
    return .ops [.get env.live l] ++ .skip .unlessMissing (value ++ store) ++ others
  | _ :: params, _ :: locals => Expr.defaultFlows site env params locals
  | _, _ => return .ops []

/-- What some statements do, with the value of the last one. -/
def Stmt.blockFlow (site : Site) (env : Env) : List Stmt → Gen (Flow Op × Env)
  | [] => return (.ops [.plain .pushNil], env)
  | [.expression _ value] => do
    let value ← value.flow site env
    return (value, env)
  | stmt :: rest => do
    let (first, env) ← stmt.flow site env
    let (others, env) ← Stmt.blockFlow site env rest
    return (first ++ others, env)

/-- The flow of statements. -/
def Stmt.flows (site : Site) (env : Env) : List Stmt → Gen (Flow Op × Env)
  | [] => return (.ops [], env)
  | stmt :: rest => do
    let (first, env) ← stmt.flow site env
    let (others, env) ← Stmt.flows site env rest
    return (first ++ others, env)

/-- The flow of a value that may be missing. -/
def Expr.optionalFlow (site : Site) (env : Env) : Option Expr → Gen (Flow Op)
  | none => return .ops [.plain .pushNil]
  | some value => value.flow site env

/-- What a statement does, and what is visible behind it. -/
def Stmt.flow (site : Site) (env : Env) : Stmt → Gen (Flow Op × Env)
  | .expression _ value => do
    let value ← value.flow site env
    return (value ++ .ops [.plain .pop], env)
  | .ret _ value => do
    let value ← Expr.optionalFlow site env value
    return (value ++ .ops [.plain .ret], env)
  | .loop _ condition body => do
    let condition ← condition.flow site env
    let body ← Gen.scope env fun env => Stmt.flows site.inBody env body
    return (.loop condition body, env)
  | .variable _ name _ _ none => do
    let (_, env) ← Gen.declare env (some name)
    return (.ops [], env)
  | .variable _ name _ _ (some initializer) => do
    let value ← initializer.flow site env
    let (store, env) ← Gen.bind env name
    return (value ++ .ops store, env)
  | .patternVariable _ pattern mutable initializer => do
    let value ← initializer.flow site env
    Gen.takeApart env pattern mutable value
  | .constant _ name _ value => do
    let value ←
      match staticLiteral? value with
      | some literal => pure (.ops [.value literal])
      | none => value.flow site env
    return (.ops [.constant (some site.fullName), .value (.symbol name)] ++ value ++
      .ops [.plain .defConst], env)
  | .namespace span kind path _ body => do
    let legal := site.context.permits (.namespace kind)
    let target := (declarationTarget site.nesting site.unit.lookup path).toOption
    let fullName := (target.map Prod.snd).getD site.fullName
    let opened := if legal then site.opened? kind target else none
    Gen.recordOpened kind span opened
    let scheme ← Gen.nested env false fun env => do
      let (body, env) ← Stmt.flows (site.inNamespace fullName kind legal) env body
      return (body ++ .ops [.plain .pushNil, .plain .ret], env)
    if opened.isSome && Stmt.anyRunsAtDeclaration body then
      return (.ops [.constant (some fullName), .function scheme, .plain .initNamespace], env)
    else
      return (.ops [], env)
  | .singleton _ body => do
    let inside := site.within (.inSingleton site.singletonOwner true)
    let body ← Gen.scope env fun env => Stmt.flows inside env body
    return (body, env)
  | .method _ name params body => do
    let scheme ← Gen.nested env false fun env => do
      let (locals, env) ← Gen.params env params
      let defaults ← Expr.defaultFlows site.inBody env params locals
      let (block, env) ← Stmt.blockFlow site.inBody env body
      return (defaults ++ block ++ .ops [.plain .ret], env)
    Gen.defineOn site.definitionTarget? fun target => target.methodOps name scheme
    return (.ops [], env)
  | .signature _ _ _ => return (.ops [], env)
  | .attribute _ kind entries => do
    Gen.defineOn site.definitionTarget? fun target =>
      entries.flatMap fun entry => target.attributeOps kind entry.name
    return (.ops [], env)
  | .aliases _ entries => do
    Gen.defineOn site.definitionTarget? fun target => entries.flatMap target.aliasOps
    return (.ops [], env)
  | .ivar _ _ _ => return (.ops [], env)
  | .include _ _ => return (.ops [], env)
  | .using _ _ => return (.ops [], env)

end

/-! ## Units -/

/-- Create or reopen a namespace. -/
def NamespaceRecord.ops (record : NamespaceRecord) : List Op :=
  [.constant (some record.parent), .value (.symbol record.name), .defNamespace record.kind]

namespace DeclaredNamespace

/-- Set a superclass. -/
def superclassOps (ns : DeclaredNamespace) : List Op :=
  match ns.superclass with
  | some superclass =>
    if ns.setsSuperclass then
      [.constant (some ns.fullName), .constant (some superclass), .plain .setSuperclass]
    else []
  | none => []

/-- Include a mixin. -/
def mixinOps (ns : DeclaredNamespace) (mixin : String) : List Op :=
  [.constant (some ns.fullName), .constant (some mixin), .plain .includeMixin]

/-- Link a namespace. -/
def linkOps (ns : DeclaredNamespace) : List Op := ns.superclassOps ++ ns.mixins.flatMap ns.mixinOps

end DeclaredNamespace

/-- Register a table. -/
def LayoutChange.ops (unit : UnitInfo) (change : LayoutChange) : List Op :=
  match unit.layouts.table? change.fullName change.singleton with
  | none => []
  | some table =>
    .constant (some change.fullName) :: (if change.singleton then [.plain .getSingleton] else []) ++
      [.value (.ivars table), .plain .defIvars]

/-- What creates the namespaces of a unit, and links superclasses and mixins. -/
def UnitInfo.namespaceOps (unit : UnitInfo) (records : OrderedMap NamespaceRecord) : List Op :=
  let recorded := unit.declared.namespaces.toValues.filter fun ns => records.contains ns.fullName
  records.toValues.flatMap NamespaceRecord.ops ++ recorded.flatMap DeclaredNamespace.linkOps

/-- What registers the layouts that grew. -/
def UnitInfo.layoutOps (unit : UnitInfo) : List Op :=
  unit.layouts.changes.flatMap (LayoutChange.ops unit)

/-- A function without variables that runs some operations. -/
def Scheme.straight (operations : List Op) : Scheme where
  mentions := []
  body := .ops (operations ++ [.plain .pushNil, .plain .ret])

/-- Run a function, and drop what it returns. -/
def Scheme.runOps (scheme : Scheme) : List Op :=
  [.function scheme, .plain .exec, .plain .pop]

/-- What is visible where a unit begins. -/
def Env.atTop : Env := ⟨⟨false, 0, 0, [[]]⟩, []⟩

/-- What the statements of a unit do, and what was noted on the way. -/
def Program.flow (unit : UnitInfo) (program : Program) : Flow Op × Progress :=
  let ((flow, _), last) :=
    (Stmt.flows ⟨unit, [rootName], .topLevel⟩ .atTop program.statements).run .start
  (flow, last)

/-- What a unit runs before its statements, each part in a function of its own. -/
def UnitInfo.hoistedOps (unit : UnitInfo) (records : OrderedMap NamespaceRecord)
    (members : List Op) : List (List Op) :=
  (if records.size = 0 then [] else [unit.namespaceOps records]) ++
    (if unit.layouts.changes.isEmpty then [] else [unit.layoutOps]) ++
    (if members.isEmpty then [] else [members])

/-- What a unit does. -/
def Program.scheme (unit : UnitInfo) (program : Program) : Scheme :=
  let (flow, last) := program.flow unit
  let hoisted := unit.hoistedOps last.records last.members
  { mentions := []
    body := .ops (hoisted.flatMap fun operations => (Scheme.straight operations).runOps) ++ flow ++
      .ops [.plain .pushNil, .plain .ret] }

end StackCode
