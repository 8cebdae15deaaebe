import StackCode.Json.Basic
import StackCode.Syntax.Basic

/-!
# Syntax trees as JSON

## Design Notes

A node is an object with a `kind` and a `span`. A kind without content is its tag; any other is an
object whose single key is the tag. Every field is written, null for one that has no value.
-/

namespace StackCode

/-- A variant that carries something. -/
def tagged (tag : String) (content : Json) : Json := .object [(tag, content)]

def Json.ofList {α : Type} (f : α → Json) (items : List α) : Json := .array (items.map f)

def Json.textOrNull (text : Option String) : Json := .ofOption (text.map .string)

def Span.toJson (span : Span) : Json :=
  .object [("line", .ofNat span.line), ("column", .ofNat span.column),
    ("end_line", .ofNat span.endLine), ("end_column", .ofNat span.endColumn)]

def Span.node (span : Span) (kind : Json) : Json :=
  .object [("kind", kind), ("span", span.toJson)]

/-- A path as its segments and whether it is absolute. -/
def Path.toJson (p : Path) : Json :=
  .object [("segments", .ofList .string p.segments), ("absolute", .bool p.absolute)]

def Literal.toJson : Literal → Json
  | .nil => .string "Nil"
  | .bool true => .string "True"
  | .bool false => .string "False"
  | .int n => tagged "Int" (.ofInt n.toInt)
  | .float x => tagged "Float" (.number (.float x))
  | .string s => tagged "String" (.string s)
  | .symbol s => tagged "Symbol" (.string s)

def SequenceKind.tag : SequenceKind → String
  | .list => "List"
  | .tuple => "Tuple"

def BinaryOp.tag : BinaryOp → String
  | .add => "Add"
  | .subtract => "Subtract"
  | .multiply => "Multiply"
  | .divide => "Divide"
  | .modulo => "Modulo"
  | .equal => "Equal"
  | .notEqual => "NotEqual"
  | .less => "Less"
  | .lessEqual => "LessEqual"
  | .greater => "Greater"
  | .greaterEqual => "GreaterEqual"

def UnaryOp.tag : UnaryOp → String
  | .negate => "Negate"
  | .not => "Not"

def LogicalOp.tag : LogicalOp → String
  | .and => "LogicalAnd"
  | .or => "LogicalOr"

def NamespaceKind.variant : NamespaceKind → String
  | .module => "Module"
  | .class => "Class"
  | .mixin => "Mixin"
  | .interface => "Interface"

def AttributeKind.variant : AttributeKind → String
  | .getter => "Getter"
  | .setter => "Setter"
  | .accessor => "Accessor"

def Target.toJson : Target → Json
  | .local name => tagged "Local" (.string name)
  | .ivar name => tagged "InstanceVariable" (.string name)

def Rest.toJson (r : Rest) : Json :=
  .object [("position", .ofNat r.position), ("binding", .textOrNull r.binding)]

def Attribute.toJson (a : Attribute) : Json :=
  .object [("name", .string a.name), ("type_annotation", .textOrNull a.declaredType)]

def Alias.toJson (a : Alias) : Json :=
  .object [("new_name", .string a.newName), ("old_name", .string a.oldName)]

def Using.toJson : Using → Json
  | .constant path newName =>
    tagged "Constant" (.object [("path", path.toJson), ("alias", .textOrNull newName)])
  | .all path => tagged "AllConstants" path.toJson

mutual

def Pattern.toJson : Pattern → Json
  | .wildcard span => span.node (.string "Wildcard")
  | .binding span name => span.node (tagged "Binding" (.string name))
  | .literal span value => span.node (tagged "Literal" value.toJson)
  | .sequence span kind elements rest =>
    span.node (tagged "Sequence" (.object [
      ("kind", .string kind.tag),
      ("elements", .array (patternsToJson elements)),
      ("rest", .ofOption (rest.map Rest.toJson))]))
  | .map span entries => span.node (tagged "Map" (.array (patternEntriesToJson entries)))

def patternsToJson : List Pattern → List Json
  | [] => []
  | p :: rest => p.toJson :: patternsToJson rest

def patternEntriesToJson : List (Literal × Pattern) → List Json
  | [] => []
  | (key, p) :: rest =>
    .object [("key", key.toJson), ("pattern", p.toJson)] :: patternEntriesToJson rest

end

mutual

def Expr.toJson : Expr → Json
  | .literal span value => span.node value.toJson
  | .self span => span.node (.string "SelfValue")
  | .sequence span kind items => span.node (tagged kind.tag (.array (exprsToJson items)))
  | .map span entries => span.node (tagged "Map" (.array (entriesToJson entries)))
  | .local span name => span.node (tagged "Identifier" (.string name))
  | .ivar span name => span.node (tagged "InstanceVariable" (.string name))
  | .constant span path => span.node (tagged "Constant" path.toJson)
  | .assign span target operator value =>
    span.node (tagged "Assign" (.object [
      ("target", target.toJson),
      ("operator", .textOrNull (operator.map BinaryOp.tag)),
      ("value", value.toJson)]))
  | .binary span operator left right =>
    span.node (tagged "Binary" (.object [
      ("operator", .string operator.tag), ("left", left.toJson), ("right", right.toJson)]))
  | .unary span operator operand =>
    span.node (tagged "Unary" (.object [
      ("operator", .string operator.tag), ("operand", operand.toJson)]))
  | .logical span operator left right =>
    span.node (tagged operator.tag (.object [("left", left.toJson), ("right", right.toJson)]))
  | .block span body => span.node (tagged "Do" (.array (stmtsToJson body)))
  | .conditional span condition thenBranch elseBranch =>
    span.node (tagged "If" (.object [
      ("condition", condition.toJson),
      ("then_branch", .array (stmtsToJson thenBranch)),
      ("else_branch", blockToJson elseBranch)]))
  | .switch span subject cases elseBranch =>
    span.node (tagged "Switch" (.object [
      ("subject", subject.toJson),
      ("cases", .array (casesToJson cases)),
      ("else_branch", blockToJson elseBranch)]))
  | .closure span params body =>
    span.node (tagged "Closure" (.object [
      ("params", .array (paramsToJson params)), ("body", .array (stmtsToJson body))]))
  | .methodCall span receiver name arguments =>
    span.node (tagged "MethodCall" (.object [
      ("receiver", receiver.toJson), ("name", .string name),
      ("arguments", .array (exprsToJson arguments))]))
  | .selfCall span name arguments =>
    span.node (tagged "SelfCall" (.object [
      ("name", .string name), ("arguments", .array (exprsToJson arguments))]))
  | .call span callee arguments =>
    span.node (tagged "Call" (.object [
      ("callee", callee.toJson), ("arguments", .array (exprsToJson arguments))]))
  | .subscript span receiver index =>
    span.node (tagged "Subscript" (.object [
      ("receiver", receiver.toJson), ("index", index.toJson)]))
  | .new span className arguments =>
    span.node (tagged "New" (.object [
      ("class", className.toJson), ("arguments", .array (exprsToJson arguments))]))
  | .raise span error => span.node (tagged "Raise" error.toJson)

def exprsToJson : List Expr → List Json
  | [] => []
  | e :: rest => e.toJson :: exprsToJson rest

def entriesToJson : List (Expr × Expr) → List Json
  | [] => []
  | (key, value) :: rest =>
    .object [("key", key.toJson), ("value", value.toJson)] :: entriesToJson rest

def blockToJson : Option (List Stmt) → Json
  | none => .null
  | some body => .array (stmtsToJson body)

def exprToJson? : Option Expr → Json
  | none => .null
  | some e => e.toJson

def casesToJson : List SwitchCase → List Json
  | [] => []
  | ⟨pattern, body, span⟩ :: rest =>
    .object [("pattern", pattern.toJson), ("body", .array (stmtsToJson body)),
      ("span", span.toJson)] :: casesToJson rest

def paramsToJson : List Parameter → List Json
  | [] => []
  | ⟨name, default, declaredType, span⟩ :: rest =>
    .object [("name", .string name), ("default", exprToJson? default),
      ("type_annotation", .textOrNull declaredType), ("span", span.toJson)] :: paramsToJson rest

def Stmt.toJson : Stmt → Json
  | .expression span value => span.node (tagged "Expression" value.toJson)
  | .ret span value => span.node (tagged "Return" (exprToJson? value))
  | .loop span condition body =>
    span.node (tagged "While" (.object [
      ("condition", condition.toJson), ("body", .array (stmtsToJson body))]))
  | .variable span name mutable declaredType initializer =>
    span.node (tagged "Variable" (.object [
      ("name", .string name), ("mutable", .bool mutable),
      ("type_annotation", .textOrNull declaredType),
      ("initializer", exprToJson? initializer)]))
  | .patternVariable span pattern mutable initializer =>
    span.node (tagged "PatternVariable" (.object [
      ("pattern", pattern.toJson), ("mutable", .bool mutable),
      ("initializer", initializer.toJson)]))
  | .constant span name declaredType value =>
    span.node (tagged "Constant" (.object [
      ("name", .string name), ("type_annotation", .textOrNull declaredType),
      ("value", value.toJson)]))
  | .namespace span kind path superclass body =>
    span.node (tagged "Namespace" (.object [
      ("kind", .string kind.variant), ("path", path.toJson),
      ("superclass", .ofOption (superclass.map Path.toJson)),
      ("body", .array (stmtsToJson body))]))
  | .singleton span body => span.node (tagged "Singleton" (.array (stmtsToJson body)))
  | .method span name params body =>
    span.node (tagged "Method" (.object [
      ("name", .string name), ("params", .array (paramsToJson params)),
      ("body", .array (stmtsToJson body))]))
  | .signature span name params =>
    span.node (tagged "MethodSignature" (.object [
      ("name", .string name), ("params", .array (paramsToJson params))]))
  | .attribute span kind entries =>
    span.node (tagged "Attribute" (.object [
      ("kind", .string kind.variant), ("entries", .ofList Attribute.toJson entries)]))
  | .aliases span entries => span.node (tagged "Alias" (.ofList Alias.toJson entries))
  | .ivar span name declaredType =>
    span.node (tagged "InstanceVariable" (.object [
      ("name", .string name), ("type_annotation", .textOrNull declaredType)]))
  | .include span paths => span.node (tagged "Include" (.ofList Path.toJson paths))
  | .using span entries => span.node (tagged "Using" (.ofList Using.toJson entries))

def stmtsToJson : List Stmt → List Json
  | [] => []
  | s :: rest => s.toJson :: stmtsToJson rest

end

/-- A unit: its statements and its span. -/
def Program.toJson (p : Program) : Json :=
  .object [("statements", .array (stmtsToJson p.statements)), ("span", p.span.toJson)]

end StackCode
