import StackCode.Json.Reader
import StackCode.Syntax.Encode

/-!
# Syntax trees from JSON

## Design Notes

The count of levels goes down by one wherever an array or object is opened. It is the depth of the
value when a value is decoded, which is never a restriction, and `Program.textDepth` when a text is.
A text also may give the named fields of a variant by position, which a value may not.
-/

namespace StackCode

/-- The named fields of a variant. They may be given by position only where `positional` says so. -/
def Json.named? (positional : Bool) (names : List String) : Json → Option (List (Option Json))
  | .array items => if positional then record? names 0 (.array items) else none
  | j => record? names 0 j

/-- The items of an array, one level deeper. -/
def Json.items? {α : Type} (f : Nat → Json → Option α) : Nat → Json → Option (List α)
  | 0, _ => none
  | d + 1, j => j.list? (f d)

def Span.ofJson? : Nat → Json → Option Span
  | 0, _ => none
  | _ + 1, j => do
    let [line, column, endLine, endColumn] ←
      Json.record? ["line", "column", "end_line", "end_column"] 0 j | none
    return {
      line := ← Json.required? Json.nat? line
      column := ← Json.required? Json.nat? column
      endLine := ← Json.required? Json.nat? endLine
      endColumn := ← Json.required? Json.nat? endColumn }

def Path.ofJson? : Nat → Json → Option Path
  | 0, _ => none
  | d + 1, j => do
    let [segments, absolute] ← Json.record? ["segments", "absolute"] 1 j | none
    return {
      segments := ← Json.required? (Json.items? (fun _ => Json.text?) d) segments
      absolute := ← Json.defaulted? Json.flag? false absolute }

/-! ### Parts without recursion -/

def Literal.ofTag? (tag : String) : Option Literal :=
  match tag with
  | "Nil" => some .nil
  | "True" => some (.bool true)
  | "False" => some (.bool false)
  | _ => none

def Literal.ofContent? (tag : String) (content : Json) : Option Literal :=
  match tag with
  | "Int" => content.int64?.map .int
  | "Float" => content.double?.map .float
  | "String" => content.text?.map .string
  | "Symbol" => content.text?.map .symbol
  | _ => none

def Literal.ofJson? (depth : Nat) (j : Json) : Option Literal :=
  (j.tag? depth).bind ofTag? <|>
    match depth, j with
    | _ + 1, .object [(tag, content)] => ofContent? tag content
    | _, _ => none

def SequenceKind.ofTag? (tag : String) : Option SequenceKind :=
  match tag with
  | "List" => some .list
  | "Tuple" => some .tuple
  | _ => none

def BinaryOp.ofTag? (tag : String) : Option BinaryOp :=
  match tag with
  | "Add" => some .add
  | "Subtract" => some .subtract
  | "Multiply" => some .multiply
  | "Divide" => some .divide
  | "Modulo" => some .modulo
  | "Equal" => some .equal
  | "NotEqual" => some .notEqual
  | "Less" => some .less
  | "LessEqual" => some .lessEqual
  | "Greater" => some .greater
  | "GreaterEqual" => some .greaterEqual
  | _ => none

def UnaryOp.ofTag? (tag : String) : Option UnaryOp :=
  match tag with
  | "Negate" => some .negate
  | "Not" => some .not
  | _ => none

def NamespaceKind.ofVariant? (tag : String) : Option NamespaceKind :=
  match tag with
  | "Module" => some .module
  | "Class" => some .class
  | "Mixin" => some .mixin
  | "Interface" => some .interface
  | _ => none

def AttributeKind.ofVariant? (tag : String) : Option AttributeKind :=
  match tag with
  | "Getter" => some .getter
  | "Setter" => some .setter
  | "Accessor" => some .accessor
  | _ => none

def Target.ofJson? : Nat → Json → Option Target
  | _ + 1, .object [("Local", content)] => content.text?.map .local
  | _ + 1, .object [("InstanceVariable", content)] => content.text?.map .ivar
  | _, _ => none

def Rest.ofJson? : Nat → Json → Option Rest
  | 0, _ => none
  | _ + 1, j => do
    let [position, binding] ← Json.record? ["position", "binding"] 0 j | none
    return {
      position := ← Json.required? Json.nat? position
      binding := ← Json.optional? Json.text? binding }

def Attribute.ofJson? : Nat → Json → Option Attribute
  | 0, _ => none
  | _ + 1, j => do
    let [name, declaredType] ← Json.record? ["name", "type_annotation"] 0 j | none
    return {
      name := ← Json.required? Json.text? name
      declaredType := ← Json.optional? Json.text? declaredType }

def Alias.ofJson? : Nat → Json → Option Alias
  | 0, _ => none
  | _ + 1, j => do
    let [newName, oldName] ← Json.record? ["new_name", "old_name"] 0 j | none
    return {
      newName := ← Json.required? Json.text? newName
      oldName := ← Json.required? Json.text? oldName }

def Using.ofJson? (positional : Bool) : Nat → Json → Option Using
  | d + 2, .object [("Constant", content)] => do
    let [path, newName] ← Json.named? positional ["path", "alias"] content | none
    return .constant (← Json.required? (Path.ofJson? d) path)
      (← Json.optional? Json.text? newName)
  | d + 1, .object [("AllConstants", content)] => (Path.ofJson? d content).map .all
  | _, _ => none

/-! ### Patterns -/

mutual

def Pattern.ofJson? (positional : Bool) : Nat → Json → Option Pattern
  | 0, _ => none
  | d + 1, j => do
    let [some kind, span] ← Json.record? ["kind", "span"] 0 j | none
    Pattern.ofKind? positional (← Json.required? (Span.ofJson? d) span) d kind

def Pattern.ofKind? (positional : Bool) (span : Span) : Nat → Json → Option Pattern
  | _, .string "Wildcard" => some (.wildcard span)
  | d + 1, .object [(tag, content)] =>
    match tag with
    | "Wildcard" => if content matches .null then some (.wildcard span) else none
    | "Binding" => content.text?.map (.binding span)
    | "Literal" => (Literal.ofJson? d content).map (.literal span)
    | "Sequence" => Pattern.ofSequence? positional span d content
    | "Map" => (Pattern.entriesOfJson? positional d content).map (.map span)
    | _ => none
  | _, _ => none

def Pattern.ofSequence? (positional : Bool) (span : Span) : Nat → Json → Option Pattern
  | 0, _ => none
  | d + 1, j => do
    let [kind, elements, rest] ← Json.named? positional ["kind", "elements", "rest"] j | none
    let kind ← Json.required? (fun k => (k.tag? d).bind SequenceKind.ofTag?) kind
    let elements ← Json.required? (Pattern.listOfJson? positional d) elements
    return .sequence span kind elements (← Json.optional? (Rest.ofJson? d) rest)

def Pattern.listOfJson? (positional : Bool) : Nat → Json → Option (List Pattern)
  | 0, _ => none
  | d + 1, j => j.list? (Pattern.ofJson? positional d)

def Pattern.entriesOfJson? (positional : Bool) : Nat → Json → Option (List (Literal × Pattern))
  | 0, _ => none
  | d + 1, j => j.list? (Pattern.entryOfJson? positional d)

def Pattern.entryOfJson? (positional : Bool) : Nat → Json → Option (Literal × Pattern)
  | 0, _ => none
  | d + 1, j => do
    let [key, pattern] ← Json.record? ["key", "pattern"] 0 j | none
    return (← Json.required? (Literal.ofJson? d) key,
      ← Json.required? (Pattern.ofJson? positional d) pattern)

end

/-! ### Expressions and statements -/

mutual

def Expr.ofJson? (positional : Bool) : Nat → Json → Option Expr
  | 0, _ => none
  | d + 1, j => do
    let [some kind, span] ← Json.record? ["kind", "span"] 0 j | none
    Expr.ofKind? positional (← Json.required? (Span.ofJson? d) span) d kind

def Expr.ofKind? (positional : Bool) (span : Span) : Nat → Json → Option Expr
  | _, .string tag =>
    if tag = "SelfValue" then some (.self span) else (Literal.ofTag? tag).map (.literal span)
  | d + 1, .object [(tag, content)] =>
    match tag with
    | "SelfValue" => if content matches .null then some (.self span) else none
    | "List" => (Expr.listOfJson? positional d content).map (.sequence span .list)
    | "Tuple" => (Expr.listOfJson? positional d content).map (.sequence span .tuple)
    | "Map" => (Expr.entriesOfJson? positional d content).map (.map span)
    | "Identifier" => content.text?.map (.local span)
    | "InstanceVariable" => content.text?.map (.ivar span)
    | "Constant" => (Path.ofJson? d content).map (.constant span)
    | "Do" => (Stmt.listOfJson? positional d content).map (.block span)
    | "Raise" => (Expr.ofJson? positional d content).map (.raise span)
    | tag =>
      (Literal.ofJson? (d + 1) (.object [(tag, content)])).map (.literal span) <|>
        Expr.ofFields? positional span tag d content
  | _, _ => none

def Expr.ofFields? (positional : Bool) (span : Span) (tag : String) : Nat → Json → Option Expr
  | 0, _ => none
  | d + 1, j =>
    match tag with
    | "Assign" => do
      let [target, operator, value] ←
        Json.named? positional ["target", "operator", "value"] j | none
      return .assign span (← Json.required? (Target.ofJson? d) target)
        (← Json.optional? (fun o => (o.tag? d).bind BinaryOp.ofTag?) operator)
        (← Json.required? (Expr.ofJson? positional d) value)
    | "Binary" => do
      let [operator, left, right] ←
        Json.named? positional ["operator", "left", "right"] j | none
      return .binary span (← Json.required? (fun o => (o.tag? d).bind BinaryOp.ofTag?) operator)
        (← Json.required? (Expr.ofJson? positional d) left)
        (← Json.required? (Expr.ofJson? positional d) right)
    | "Unary" => do
      let [operator, operand] ← Json.named? positional ["operator", "operand"] j | none
      return .unary span (← Json.required? (fun o => (o.tag? d).bind UnaryOp.ofTag?) operator)
        (← Json.required? (Expr.ofJson? positional d) operand)
    | "LogicalAnd" => do
      let [left, right] ← Json.named? positional ["left", "right"] j | none
      return .logical span .and (← Json.required? (Expr.ofJson? positional d) left)
        (← Json.required? (Expr.ofJson? positional d) right)
    | "LogicalOr" => do
      let [left, right] ← Json.named? positional ["left", "right"] j | none
      return .logical span .or (← Json.required? (Expr.ofJson? positional d) left)
        (← Json.required? (Expr.ofJson? positional d) right)
    | "If" => do
      let [condition, thenBranch, elseBranch] ←
        Json.named? positional ["condition", "then_branch", "else_branch"] j | none
      return .conditional span (← Json.required? (Expr.ofJson? positional d) condition)
        (← Json.required? (Stmt.listOfJson? positional d) thenBranch)
        (← Json.optional? (Stmt.listOfJson? positional d) elseBranch)
    | "Switch" => do
      let [subject, cases, elseBranch] ←
        Json.named? positional ["subject", "cases", "else_branch"] j | none
      return .switch span (← Json.required? (Expr.ofJson? positional d) subject)
        (← Json.required? (Expr.casesOfJson? positional d) cases)
        (← Json.optional? (Stmt.listOfJson? positional d) elseBranch)
    | "Closure" => do
      let [params, body] ← Json.named? positional ["params", "body"] j | none
      return .closure span (← Json.required? (Parameter.listOfJson? positional d) params)
        (← Json.required? (Stmt.listOfJson? positional d) body)
    | "MethodCall" => do
      let [receiver, name, arguments] ←
        Json.named? positional ["receiver", "name", "arguments"] j | none
      return .methodCall span (← Json.required? (Expr.ofJson? positional d) receiver)
        (← Json.required? Json.text? name)
        (← Json.required? (Expr.listOfJson? positional d) arguments)
    | "SelfCall" => do
      let [name, arguments] ← Json.named? positional ["name", "arguments"] j | none
      return .selfCall span (← Json.required? Json.text? name)
        (← Json.required? (Expr.listOfJson? positional d) arguments)
    | "Call" => do
      let [callee, arguments] ← Json.named? positional ["callee", "arguments"] j | none
      return .call span (← Json.required? (Expr.ofJson? positional d) callee)
        (← Json.required? (Expr.listOfJson? positional d) arguments)
    | "Subscript" => do
      let [receiver, index] ← Json.named? positional ["receiver", "index"] j | none
      return .subscript span (← Json.required? (Expr.ofJson? positional d) receiver)
        (← Json.required? (Expr.ofJson? positional d) index)
    | "New" => do
      let [className, arguments] ← Json.named? positional ["class", "arguments"] j | none
      return .new span (← Json.required? (Path.ofJson? d) className)
        (← Json.required? (Expr.listOfJson? positional d) arguments)
    | _ => none

def Expr.listOfJson? (positional : Bool) : Nat → Json → Option (List Expr)
  | 0, _ => none
  | d + 1, j => j.list? (Expr.ofJson? positional d)

def Expr.entriesOfJson? (positional : Bool) : Nat → Json → Option (List (Expr × Expr))
  | 0, _ => none
  | d + 1, j => j.list? (Expr.entryOfJson? positional d)

def Expr.entryOfJson? (positional : Bool) : Nat → Json → Option (Expr × Expr)
  | 0, _ => none
  | d + 1, j => do
    let [key, value] ← Json.record? ["key", "value"] 0 j | none
    return (← Json.required? (Expr.ofJson? positional d) key,
      ← Json.required? (Expr.ofJson? positional d) value)

def Expr.casesOfJson? (positional : Bool) : Nat → Json → Option (List SwitchCase)
  | 0, _ => none
  | d + 1, j => j.list? (SwitchCase.ofJson? positional d)

def SwitchCase.ofJson? (positional : Bool) : Nat → Json → Option SwitchCase
  | 0, _ => none
  | d + 1, j => do
    let [pattern, body, span] ← Json.record? ["pattern", "body", "span"] 0 j | none
    return {
      pattern := ← Json.required? (Pattern.ofJson? positional d) pattern
      body := ← Json.required? (Stmt.listOfJson? positional d) body
      span := ← Json.required? (Span.ofJson? d) span }

def Parameter.listOfJson? (positional : Bool) : Nat → Json → Option (List Parameter)
  | 0, _ => none
  | d + 1, j => j.list? (Parameter.ofJson? positional d)

def Parameter.ofJson? (positional : Bool) : Nat → Json → Option Parameter
  | 0, _ => none
  | d + 1, j => do
    let [name, default, declaredType, span] ←
      Json.record? ["name", "default", "type_annotation", "span"] 0 j | none
    return {
      name := ← Json.required? Json.text? name
      default := ← Json.optional? (Expr.ofJson? positional d) default
      declaredType := ← Json.optional? Json.text? declaredType
      span := ← Json.required? (Span.ofJson? d) span }

def Stmt.ofJson? (positional : Bool) : Nat → Json → Option Stmt
  | 0, _ => none
  | d + 1, j => do
    let [some kind, span] ← Json.record? ["kind", "span"] 0 j | none
    Stmt.ofKind? positional (← Json.required? (Span.ofJson? d) span) d kind

def Stmt.ofKind? (positional : Bool) (span : Span) : Nat → Json → Option Stmt
  | d + 1, .object [(tag, content)] =>
    match tag with
    | "Expression" => (Expr.ofJson? positional d content).map (.expression span)
    | "Return" => (Json.optional? (Expr.ofJson? positional d) (some content)).map (.ret span)
    | "Singleton" => (Stmt.listOfJson? positional d content).map (.singleton span)
    | "Alias" => (Json.items? Alias.ofJson? d content).map (.aliases span)
    | "Include" => (Json.items? Path.ofJson? d content).map (.include span)
    | "Using" => (Json.items? (Using.ofJson? positional) d content).map (.using span)
    | tag => Stmt.ofFields? positional span tag d content
  | _, _ => none

def Stmt.ofFields? (positional : Bool) (span : Span) (tag : String) : Nat → Json → Option Stmt
  | 0, _ => none
  | d + 1, j =>
    match tag with
    | "While" => do
      let [condition, body] ← Json.named? positional ["condition", "body"] j | none
      return .loop span (← Json.required? (Expr.ofJson? positional d) condition)
        (← Json.required? (Stmt.listOfJson? positional d) body)
    | "Variable" => do
      let [name, mutable, declaredType, initializer] ←
        Json.record? ["name", "mutable", "type_annotation", "initializer"] 0 j | none
      return .variable span (← Json.required? Json.text? name)
        (← Json.required? Json.flag? mutable)
        (← Json.optional? Json.text? declaredType)
        (← Json.optional? (Expr.ofJson? positional d) initializer)
    | "PatternVariable" => do
      let [pattern, mutable, initializer] ←
        Json.named? positional ["pattern", "mutable", "initializer"] j | none
      return .patternVariable span (← Json.required? (Pattern.ofJson? positional d) pattern)
        (← Json.required? Json.flag? mutable)
        (← Json.required? (Expr.ofJson? positional d) initializer)
    | "Constant" => do
      let [name, declaredType, value] ←
        Json.named? positional ["name", "type_annotation", "value"] j | none
      return .constant span (← Json.required? Json.text? name)
        (← Json.optional? Json.text? declaredType)
        (← Json.required? (Expr.ofJson? positional d) value)
    | "Namespace" => do
      let [kind, path, superclass, body] ←
        Json.record? ["kind", "path", "superclass", "body"] 0 j | none
      return .namespace span
        (← Json.required? (fun k => (k.tag? d).bind NamespaceKind.ofVariant?) kind)
        (← Json.required? (Path.ofJson? d) path)
        (← Json.optional? (Path.ofJson? d) superclass)
        (← Json.required? (Stmt.listOfJson? positional d) body)
    | "Method" => do
      let [name, params, body] ← Json.record? ["name", "params", "body"] 0 j | none
      return .method span (← Json.required? Json.text? name)
        (← Json.required? (Parameter.listOfJson? positional d) params)
        (← Json.required? (Stmt.listOfJson? positional d) body)
    | "MethodSignature" => do
      let [name, params] ← Json.named? positional ["name", "params"] j | none
      return .signature span (← Json.required? Json.text? name)
        (← Json.required? (Parameter.listOfJson? positional d) params)
    | "Attribute" => do
      let [kind, entries] ← Json.named? positional ["kind", "entries"] j | none
      return .attribute span
        (← Json.required? (fun k => (k.tag? d).bind AttributeKind.ofVariant?) kind)
        (← Json.required? (Json.items? Attribute.ofJson? d) entries)
    | "InstanceVariable" => do
      let [name, declaredType] ←
        Json.named? positional ["name", "type_annotation"] j | none
      return .ivar span (← Json.required? Json.text? name)
        (← Json.optional? Json.text? declaredType)
    | _ => none

def Stmt.listOfJson? (positional : Bool) : Nat → Json → Option (List Stmt)
  | 0, _ => none
  | d + 1, j => j.list? (Stmt.ofJson? positional d)

end

/-! ### Units -/

namespace Program

def decode? (positional : Bool) : Nat → Json → Option Program
  | 0, _ => none
  | d + 1, j => do
    let [statements, span] ← Json.record? ["statements", "span"] 1 j | none
    return {
      statements := ← Json.required? (Stmt.listOfJson? positional d) statements
      span := ← Json.defaulted? (Span.ofJson? d) Span.zero span }

def ofJson? (j : Json) : Option Program := decode? false j.depth j

/-- The unit of the statements that a value spells. -/
def ofStatementsJson? (j : Json) : Option Program :=
  (Stmt.listOfJson? false j.depth j).map ofStatements

/-- How deep arrays and objects may nest in a text. -/
def textDepth : Nat := 127

def read? (text : String) : Option Program := (Json.read? text).bind (decode? true textDepth)

end Program

end StackCode
