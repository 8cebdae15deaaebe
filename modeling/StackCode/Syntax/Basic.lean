import StackCode.Number.Double
import StackCode.Source.Path
import StackCode.Source.Span

/-!
# Syntax trees

The language has namespaces (modules, classes, mixins and interfaces), methods, closures and
destructuring patterns. A front end hands over one `Program` for each compilation unit.

## Design Notes

The span is the first argument of every node, so a function on trees needs one case for each form
and the recursion is over the nodes themselves. Literals are one type, shared by expressions and
patterns, because they mean the same in both.
-/

namespace StackCode

inductive Literal where
  | nil
  | bool (value : Bool)
  | int (value : Int64)
  | float (value : Double)
  | string (text : String)
  | symbol (name : String)
deriving DecidableEq, Repr

/-- Lists and tuples share their literals and their patterns. -/
inductive SequenceKind where
  | list
  | tuple
deriving DecidableEq, Repr

/-- The part of a sequence pattern that takes the elements between the leading and the trailing
ones. -/
structure Rest where
  /-- The number of element patterns written before it. -/
  position : Nat
  /-- The name it binds; a bare star binds none. -/
  binding : Option String
deriving DecidableEq, Repr

inductive Pattern where
  /-- Matches everything. -/
  | wildcard (span : Span)
  /-- Matches everything and binds it. -/
  | binding (span : Span) (name : String)
  /-- Matches what equals the literal. -/
  | literal (span : Span) (value : Literal)
  /-- Matches a list or tuple element by element. -/
  | sequence (span : Span) (kind : SequenceKind) (elements : List Pattern) (rest : Option Rest)
  /-- Matches a map that has every key, with a matching value. -/
  | map (span : Span) (entries : List (Literal × Pattern))

def Pattern.span : Pattern → Span
  | .wildcard span => span
  | .binding span _ => span
  | .literal span _ => span
  | .sequence span _ _ _ => span
  | .map span _ => span

/-- Operators that evaluate both operands. -/
inductive BinaryOp where
  | add
  | subtract
  | multiply
  | divide
  | modulo
  | equal
  | notEqual
  | less
  | lessEqual
  | greater
  | greaterEqual
deriving DecidableEq, Repr

/-- Operators with one operand. -/
inductive UnaryOp where
  | negate
  | not
deriving DecidableEq, Repr

/-- Operators that may leave the right operand out. -/
inductive LogicalOp where
  | and
  | or
deriving DecidableEq, Repr

/-- What an assignment assigns to. -/
inductive Target where
  | local (name : String)
  | ivar (name : String)
deriving DecidableEq, Repr

inductive NamespaceKind where
  | «module»
  | «class»
  | mixin
  | interface
deriving DecidableEq, Repr, Inhabited

namespace NamespaceKind

def name : NamespaceKind → String
  | .module => "module"
  | .class => "class"
  | .mixin => "mixin"
  | .interface => "interface"

/-- The number that stands for a kind in code. -/
def tag : NamespaceKind → UInt8
  | .module => 0
  | .class => 1
  | .mixin => 2
  | .interface => 3

def ofTag? (tag : UInt8) : Option NamespaceKind :=
  if tag = 0 then some .module
  else if tag = 1 then some .class
  else if tag = 2 then some .mixin
  else if tag = 3 then some .interface
  else none

/-- Whether objects of the kind, or of classes that include it, have instance variables. -/
def holdsInstances : NamespaceKind → Bool
  | .class => true
  | .mixin => true
  | _ => false

@[simp] theorem ofTag?_tag (k : NamespaceKind) : ofTag? k.tag = some k := by
  cases k <;> rfl

end NamespaceKind

/-- Which accessors an attribute declaration defines. -/
inductive AttributeKind where
  | getter
  | setter
  /-- Both of them. -/
  | accessor
deriving DecidableEq, Repr

def AttributeKind.keyword : AttributeKind → String
  | .getter => "getter"
  | .setter => "setter"
  | .accessor => "attr"

structure Attribute where
  name : String
  declaredType : Option String
deriving DecidableEq, Repr

/-- A second name for a method. -/
structure Alias where
  newName : String
  oldName : String
deriving DecidableEq, Repr

inductive Using where
  /-- Imports one constant, by its own last name or by another. -/
  | constant (path : Path) (newName : Option String)
  /-- Imports every constant of a namespace. -/
  | all (path : Path)
deriving DecidableEq, Repr

mutual

inductive Expr where
  | literal (span : Span) (value : Literal)
  | self (span : Span)
  | sequence (span : Span) (kind : SequenceKind) (items : List Expr)
  | map (span : Span) (entries : List (Expr × Expr))
  | local (span : Span) (name : String)
  | ivar (span : Span) (name : String)
  | constant (span : Span) (path : Path)
  | assign (span : Span) (target : Target) (operator : Option BinaryOp) (value : Expr)
  | binary (span : Span) (operator : BinaryOp) (left right : Expr)
  | unary (span : Span) (operator : UnaryOp) (operand : Expr)
  | logical (span : Span) (operator : LogicalOp) (left right : Expr)
  /-- A block with its own scope; its value is that of its last expression. -/
  | block (span : Span) (body : List Stmt)
  | conditional (span : Span) (condition : Expr) (thenBranch : List Stmt)
      (elseBranch : Option (List Stmt))
  | switch (span : Span) (subject : Expr) (cases : List SwitchCase)
      (elseBranch : Option (List Stmt))
  | closure (span : Span) (params : List Parameter) (body : List Stmt)
  | methodCall (span : Span) (receiver : Expr) (name : String) (arguments : List Expr)
  | selfCall (span : Span) (name : String) (arguments : List Expr)
  | call (span : Span) (callee : Expr) (arguments : List Expr)
  | subscript (span : Span) (receiver index : Expr)
  | new (span : Span) (className : Path) (arguments : List Expr)
  | raise (span : Span) (error : Expr)

structure SwitchCase where
  pattern : Pattern
  body : List Stmt
  span : Span

/-- A parameter of a method or closure; one with a default is optional. -/
structure Parameter where
  name : String
  default : Option Expr
  declaredType : Option String
  span : Span

inductive Stmt where
  | expression (span : Span) (value : Expr)
  | ret (span : Span) (value : Option Expr)
  | loop (span : Span) (condition : Expr) (body : List Stmt)
  /-- Declares a `var`, or a `val` when not mutable. -/
  | variable (span : Span) (name : String) (mutable : Bool) (declaredType : Option String)
      (initializer : Option Expr)
  | patternVariable (span : Span) (pattern : Pattern) (mutable : Bool) (initializer : Expr)
  | constant (span : Span) (name : String) (declaredType : Option String) (value : Expr)
  | «namespace» (span : Span) (kind : NamespaceKind) (path : Path) (superclass : Option Path)
      (body : List Stmt)
  | singleton (span : Span) (body : List Stmt)
  | method (span : Span) (name : String) (params : List Parameter) (body : List Stmt)
  | signature (span : Span) (name : String) (params : List Parameter)
  | attribute (span : Span) (kind : AttributeKind) (entries : List Attribute)
  | aliases (span : Span) (entries : List Alias)
  | ivar (span : Span) (name : String) (declaredType : Option String)
  | include (span : Span) (paths : List Path)
  | using (span : Span) (entries : List Using)

end

namespace Expr

def span : Expr → Span
  | .literal span _ => span
  | .self span => span
  | .sequence span _ _ => span
  | .map span _ => span
  | .local span _ => span
  | .ivar span _ => span
  | .constant span _ => span
  | .assign span _ _ _ => span
  | .binary span _ _ _ => span
  | .unary span _ _ => span
  | .logical span _ _ _ => span
  | .block span _ => span
  | .conditional span _ _ _ => span
  | .switch span _ _ _ => span
  | .closure span _ _ => span
  | .methodCall span _ _ _ => span
  | .selfCall span _ _ => span
  | .call span _ _ => span
  | .subscript span _ _ => span
  | .new span _ _ => span
  | .raise span _ => span

/-- Whether the value of an expression is its only effect. -/
def isPure : Expr → Bool
  | .literal _ _ => true
  | .self _ => true
  | .local _ _ => true
  | .ivar _ _ => true
  | .constant _ _ => true
  | _ => false

end Expr

namespace Stmt

def span : Stmt → Span
  | .expression span _ => span
  | .ret span _ => span
  | .loop span _ _ => span
  | .variable span _ _ _ _ => span
  | .patternVariable span _ _ _ => span
  | .constant span _ _ _ => span
  | .namespace span _ _ _ _ => span
  | .singleton span _ => span
  | .method span _ _ _ => span
  | .signature span _ _ => span
  | .attribute span _ _ => span
  | .aliases span _ => span
  | .ivar span _ _ => span
  | .include span _ => span
  | .using span _ => span

def isReturn : Stmt → Bool
  | .ret _ _ => true
  | _ => false

/-- Whether a statement emits code where it stands, so that it can be unreachable. -/
def producesCode : Stmt → Bool
  | .expression _ _ => true
  | .ret _ _ => true
  | .loop _ _ _ => true
  | .variable _ _ _ _ _ => true
  | .patternVariable _ _ _ _ => true
  | _ => false

mutual

/-- Whether a statement of a namespace body does anything when the declaration runs. -/
def runsAtDeclaration : Stmt → Bool
  | .expression _ _ => true
  | .ret _ _ => true
  | .loop _ _ _ => true
  | .variable _ _ _ _ _ => true
  | .patternVariable _ _ _ _ => true
  | .constant _ _ _ _ => true
  | .namespace _ _ _ _ body => anyRunsAtDeclaration body
  | .singleton _ body => anyRunsAtDeclaration body
  | .method _ _ _ _ => false
  | .signature _ _ _ => false
  | .attribute _ _ _ => false
  | .aliases _ _ => false
  | .ivar _ _ _ => false
  | .include _ _ => false
  | .using _ _ => false

/-- Whether one of the statements does anything when the declaration runs. -/
def anyRunsAtDeclaration : List Stmt → Bool
  | [] => false
  | s :: rest => s.runsAtDeclaration || anyRunsAtDeclaration rest

end

end Stmt

/-- A compilation unit. -/
structure Program where
  statements : List Stmt
  span : Span

namespace Program

/-- The unit of some statements: it spans from the first to the last of them. -/
def ofStatements (statements : List Stmt) : Program where
  statements := statements
  span :=
    match statements.head?, statements.getLast? with
    | some first, some last => first.span.join last.span
    | _, _ => Span.zero

end Program

def requiredCount (params : List Parameter) : Nat := params.countP (·.default.isNone)

def optionalCount (params : List Parameter) : Nat := params.countP (·.default.isSome)

end StackCode
