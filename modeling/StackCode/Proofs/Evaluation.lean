import StackCode.Proofs.Execution

/-!
# Evaluating the core of the language

The core of the language has literals and collections, local variables, operators, blocks,
conditionals, subscripts, `raise`, `return`, loops and declarations with an initializer, and with
patterns also switches and declarations that take a value apart. Its trees are evaluated directly,
with the visible variables at hand.

An evaluation has no result where the trees or the operators give none, and where a loop takes more
rounds than it may. There is none either for a sequence that is longer than integers can count.
-/

namespace StackCode

/-! ## The core -/

mutual

/-- Whether an expression is in the core of the language, with or without patterns. -/
def Expr.isCore (patterns : Bool) : Expr → Bool
  | .literal _ _ => true
  | .sequence _ _ items => Expr.allCore patterns items
  | .map _ entries => Expr.entriesCore patterns entries
  | .local _ _ => true
  | .assign _ (.local _) _ value => value.isCore patterns
  | .binary _ _ left right => left.isCore patterns && right.isCore patterns
  | .unary _ _ operand => operand.isCore patterns
  | .logical _ _ left right => left.isCore patterns && right.isCore patterns
  | .block _ body => Stmt.allCore patterns body
  | .conditional _ condition thenBranch elseBranch =>
    condition.isCore patterns && Stmt.allCore patterns thenBranch &&
      Stmt.elseCore patterns elseBranch
  | .switch _ subject cases elseBranch =>
    patterns && subject.isCore patterns && Stmt.casesCore patterns cases &&
      Stmt.elseCore patterns elseBranch
  | .subscript _ receiver index => receiver.isCore patterns && index.isCore patterns
  | .raise _ error => error.isCore patterns
  | _ => false

/-- The same for expressions. -/
def Expr.allCore (patterns : Bool) : List Expr → Bool
  | [] => true
  | e :: rest => e.isCore patterns && Expr.allCore patterns rest

/-- The same for the entries of a map. -/
def Expr.entriesCore (patterns : Bool) : List (Expr × Expr) → Bool
  | [] => true
  | (key, value) :: rest =>
    key.isCore patterns && value.isCore patterns && Expr.entriesCore patterns rest

/-- The same for a last branch. -/
def Stmt.elseCore (patterns : Bool) : Option (List Stmt) → Bool
  | none => true
  | some body => Stmt.allCore patterns body

/-- The same for the cases of a switch. -/
def Stmt.casesCore (patterns : Bool) : List SwitchCase → Bool
  | [] => true
  | ⟨_, body, _⟩ :: rest => Stmt.allCore patterns body && Stmt.casesCore patterns rest

/-- The same for statements. -/
def Stmt.allCore (patterns : Bool) : List Stmt → Bool
  | [] => true
  | stmt :: rest => stmt.isCore patterns && Stmt.allCore patterns rest

/-- The same for a value that may be missing. -/
def Expr.optionalCore (patterns : Bool) : Option Expr → Bool
  | none => true
  | some value => value.isCore patterns

/-- Whether a statement is in the core. -/
def Stmt.isCore (patterns : Bool) : Stmt → Bool
  | .expression _ value => value.isCore patterns
  | .ret _ value => Expr.optionalCore patterns value
  | .loop _ condition body => condition.isCore patterns && Stmt.allCore patterns body
  | .variable _ _ _ _ (some initializer) => initializer.isCore patterns
  | .patternVariable _ _ _ initializer => patterns && initializer.isCore patterns
  | _ => false

end

/-- Whether a unit is in the core. -/
def Program.isCore (patterns : Bool) (program : Program) : Bool :=
  Stmt.allCore patterns program.statements

/-! ## Variables -/

/-- The visible variables and their values, the latest first. -/
abbrev Bindings := List (String × Datum)

/-- Give the latest variable of a name another value. -/
def Bindings.assign? (name : String) (value : Datum) : Bindings → Option Bindings
  | [] => none
  | (other, old) :: rest =>
    if other = name then some ((other, value) :: rest)
    else (assign? name value rest).map ((other, old) :: ·)

/-! ## Patterns -/

/-- A length that integers can count to. -/
def countable (length : Nat) : Bool := length < 2 ^ 63

mutual

/-- Whether no sequence in a datum is longer than integers can count. -/
def Datum.isSized : Datum → Bool
  | .list items => countable items.length && Datum.allSized items
  | .tuple items => countable items.length && Datum.allSized items
  | .map entries => Datum.entriesSized entries
  | _ => true

/-- Whether no sequence in some data is longer than integers can count. -/
def Datum.allSized : List Datum → Bool
  | [] => true
  | v :: rest => v.isSized && Datum.allSized rest

/-- The same for the entries of a map. -/
def Datum.entriesSized : List (Datum × Datum) → Bool
  | [] => true
  | (_, v) :: rest => v.isSized && Datum.entriesSized rest

end

mutual

/-- Whether no pattern has more elements than integers can count. -/
def Pattern.isSized : Pattern → Bool
  | .sequence _ _ elements _ => countable elements.length && Pattern.allSized elements
  | .map _ entries => Pattern.entriesSized entries
  | _ => true

/-- The same for patterns. -/
def Pattern.allSized : List Pattern → Bool
  | [] => true
  | p :: rest => p.isSized && Pattern.allSized rest

/-- The same for the entries of a map. -/
def Pattern.entriesSized : List (Literal × Pattern) → Bool
  | [] => true
  | (_, p) :: rest => p.isSized && Pattern.entriesSized rest

end

/-- The elements of a sequence of some kind. -/
def SequenceKind.items? : SequenceKind → Datum → Option (List Datum)
  | .list, .list items => some items
  | .tuple, .tuple items => some items
  | _, _ => none

/-- The elements that so many element patterns are for, and those that the rest takes: the patterns
before the rest are for the first elements, and those behind it for the last ones. -/
def splitItems? (rest : Option Rest) (count : Nat) (items : List Datum) :
    Option (List Datum × List Datum) :=
  match rest with
  | none => if items.length = count then some (items, []) else none
  | some rest =>
    let leading := min rest.position count
    let trailing := count - leading
    if count ≤ items.length then
      some (items.take leading ++ items.drop (items.length - trailing),
        (items.take (items.length - trailing)).drop leading)
    else none

/-- The value of a key. -/
def valueAt? (entries : List (Datum × Datum)) (key : Datum) : Option Datum :=
  (entries.find? fun entry => entry.1.same key).map Prod.snd

namespace Pattern

mutual

/-- The parts of a datum that a pattern names, in the order of the pattern, if the datum matches. -/
def parts? : Pattern → Datum → Option Bindings
  | .wildcard _, _ => some []
  | .binding _ name, v => some [(name, v)]
  | .literal _ value, v => if v.same value.datum then some [] else none
  | .sequence _ kind elements rest, v => do
    let items ← kind.items? v
    let (ours, between) ← splitItems? rest elements.length items
    let parts ← elementParts? elements ours
    return parts ++ ((rest.bind Rest.binding).map fun name => (name, Datum.list between)).toList
  | .map _ entries, .map pairs => entryParts? pairs entries
  | .map _ _, _ => none

/-- The same for a list of patterns and as many data. -/
def elementParts? : List Pattern → List Datum → Option Bindings
  | [], [] => some []
  | p :: rest, v :: others => do
    let first ← p.parts? v
    let parts ← elementParts? rest others
    return first ++ parts
  | _, _ => none

/-- The same for the entries of a map pattern. Every key has to be there. -/
def entryParts? (pairs : List (Datum × Datum)) : List (Literal × Pattern) → Option Bindings
  | [] => some []
  | (key, p) :: rest => do
    let v ← valueAt? pairs key.datum
    let first ← p.parts? v
    let parts ← entryParts? pairs rest
    return first ++ parts

end

end Pattern

/-! ## Evaluations -/

/-- An evaluation. It works with the visible variables, and may end the run. -/
abbrev Eval := StateT Bindings (ExceptT Ending Option)

namespace Eval

/-- What is given, if anything is. -/
def ofOption {α : Type} (given : Option α) : Eval α := fun bindings =>
  given.map fun a => .ok (a, bindings)

/-- End with a result. -/
def stop {α : Type} (result : Ending) : Eval α := fun _ => some (.error result)

/-- Read a variable. -/
def read (name : String) : Eval Datum := fun bindings =>
  (bindings.lookup name).map fun value => .ok (value, bindings)

/-- Assign to a variable. -/
def assign (name : String) (value : Datum) : Eval Unit := fun bindings =>
  (bindings.assign? name value).map fun bindings => .ok ((), bindings)

/-- Declare a variable. -/
def declare (name : String) (value : Datum) : Eval Unit := fun bindings =>
  some (.ok ((), (name, value) :: bindings))

/-- Declare some variables, in order. -/
def declareAll (parts : Bindings) : Eval Unit := fun bindings =>
  some (.ok ((), parts.reverse ++ bindings))

/-- What a pattern binds of a datum, if that matches. There is no result for what is longer than
integers can count. -/
def parts (pattern : Pattern) (value : Datum) : Eval (Option Bindings) :=
  ofOption (if pattern.isSized && value.isSized then some (pattern.parts? value) else none)

/-- Drop the variables that were declared behind the first `count` ones. -/
def dropTo (count : Nat) : Eval Unit := fun bindings =>
  some (.ok ((), bindings.drop (bindings.length - count)))

/-- Drop the variables of a block behind it. -/
def inBlock {α : Type} (body : Eval α) : Eval α := do
  let outside ← get
  let a ← body
  dropTo outside.length
  return a

/-- Go round as long as a condition holds, so many times at most. -/
def repeatWhile (condition : Eval Datum) (body : Eval Unit) : Nat → Eval Unit
  | 0 => ofOption none
  | rounds + 1 => do
    let holds ← condition
    if holds.truthy then
      body
      repeatWhile condition body rounds
    else return

end Eval

/-! ## Trees -/

/-- The error that a declaration throws when the value does not match its pattern. -/
def mismatch (mutable : Bool) : Datum :=
  .instance patternErrorName [.string (Compile.mismatchMessage mutable)]

/-- The right side of a logical operator is evaluated if the left side does not settle it. -/
def LogicalOp.goesOn : LogicalOp → Datum → Bool
  | .and, left => left.truthy
  | .or, left => !left.truthy

mutual

/-- The value of an expression. -/
def Expr.eval (ops : Operators) (rounds : Nat) : Expr → Eval Datum
  | .literal _ value => return value.datum
  | .sequence _ kind items => do
    let items ← Expr.evals ops rounds items
    return kind.datum items
  | .map _ entries => do
    let entries ← Expr.evalEntries ops rounds entries
    return .map entries
  | .local _ name => Eval.read name
  | .assign _ (.local name) none value => do
    let value ← value.eval ops rounds
    Eval.assign name value
    return value
  | .assign _ (.local name) (some operator) value => do
    let old ← Eval.read name
    let value ← value.eval ops rounds
    let value ← Eval.ofOption (ops.binary operator old value)
    Eval.assign name value
    return value
  | .binary _ operator left right => do
    let left ← left.eval ops rounds
    let right ← right.eval ops rounds
    Eval.ofOption (ops.binary operator left right)
  | .unary _ operator operand => do
    let operand ← operand.eval ops rounds
    Eval.ofOption (ops.unary operator operand)
  | .logical _ operator left right => do
    let left ← left.eval ops rounds
    if operator.goesOn left then right.eval ops rounds else return left
  | .block _ body => Eval.inBlock (Stmt.evalBlock ops rounds body)
  | .conditional _ condition thenBranch elseBranch => do
    let holds ← condition.eval ops rounds
    if holds.truthy then Eval.inBlock (Stmt.evalBlock ops rounds thenBranch)
    else Stmt.evalElse ops rounds elseBranch
  | .switch _ subject cases elseBranch => do
    let value ← subject.eval ops rounds
    Stmt.evalCases ops rounds value (Stmt.evalElse ops rounds elseBranch) cases
  | .subscript _ receiver index => do
    let receiver ← receiver.eval ops rounds
    let index ← index.eval ops rounds
    Eval.ofOption (ops.subscript receiver index)
  | .raise _ error => do
    let error ← error.eval ops rounds
    Eval.stop (.thrown error)
  | _ => Eval.ofOption none

/-- The values of expressions. -/
def Expr.evals (ops : Operators) (rounds : Nat) : List Expr → Eval (List Datum)
  | [] => return []
  | e :: rest => do
    let first ← e.eval ops rounds
    let others ← Expr.evals ops rounds rest
    return first :: others

/-- The keys and values of entries. -/
def Expr.evalEntries (ops : Operators) (rounds : Nat) :
    List (Expr × Expr) → Eval (List (Datum × Datum))
  | [] => return []
  | (key, value) :: rest => do
    let key ← key.eval ops rounds
    let value ← value.eval ops rounds
    let others ← Expr.evalEntries ops rounds rest
    return (key, value) :: others

/-- The value of a last branch. -/
def Stmt.evalElse (ops : Operators) (rounds : Nat) : Option (List Stmt) → Eval Datum
  | none => return .nil
  | some body => Eval.inBlock (Stmt.evalBlock ops rounds body)

/-- The value of the first arm whose pattern a value matches, or else of the last branch. -/
def Stmt.evalCases (ops : Operators) (rounds : Nat) (value : Datum) (last : Eval Datum) :
    List SwitchCase → Eval Datum
  | [] => last
  | ⟨pattern, body, _⟩ :: rest => do
    match ← Eval.parts pattern value with
    | some parts =>
      Eval.inBlock do
        Eval.declareAll parts
        Stmt.evalBlock ops rounds body
    | none => Stmt.evalCases ops rounds value last rest

/-- Some statements, with the value of the last one if that is an expression. -/
def Stmt.evalBlock (ops : Operators) (rounds : Nat) : List Stmt → Eval Datum
  | [] => return .nil
  | [.expression _ value] => value.eval ops rounds
  | stmt :: rest => do
    stmt.eval ops rounds
    Stmt.evalBlock ops rounds rest

/-- Run statements. -/
def Stmt.evals (ops : Operators) (rounds : Nat) : List Stmt → Eval Unit
  | [] => return
  | stmt :: rest => do
    stmt.eval ops rounds
    Stmt.evals ops rounds rest

/-- The value of an expression, or nil. -/
def Expr.evalOptional (ops : Operators) (rounds : Nat) : Option Expr → Eval Datum
  | none => return .nil
  | some value => value.eval ops rounds

/-- Run a statement. -/
def Stmt.eval (ops : Operators) (rounds : Nat) : Stmt → Eval Unit
  | .expression _ value => do
    let _ ← value.eval ops rounds
    return
  | .ret _ value => do
    let value ← Expr.evalOptional ops rounds value
    Eval.stop (.returned value)
  | .loop _ condition body =>
    Eval.repeatWhile (condition.eval ops rounds) (Eval.inBlock (Stmt.evals ops rounds body)) rounds
  | .variable _ name _ _ (some initializer) => do
    let value ← initializer.eval ops rounds
    Eval.declare name value
  | .patternVariable _ pattern mutable initializer => do
    let value ← initializer.eval ops rounds
    match ← Eval.parts pattern value with
    | some parts => Eval.declareAll parts
    | none => Eval.stop (.thrown (mismatch mutable))
  | _ => Eval.ofOption none

end

/-- How a unit ends, with so many rounds at most for every loop. A unit that runs to its end returns
nil. -/
def Program.eval (ops : Operators) (rounds : Nat) (program : Program) : Option Ending :=
  ((Stmt.evals ops rounds program.statements).run []).run.map fun
    | .ok _ => .returned .nil
    | .error result => result

end StackCode
