import Mathlib.Data.List.Forall2
import StackCode.Function.Json

/-!
# Spellings of trees

A tree is written as JSON in one way and may be read from many. A record may be an object with its
fields by name, or an array with all of its fields by position, and each record of a tree may be
written in either form. The named fields of a variant are no record: they are given by name. A
spelling is a predicate on values that is put together from the predicates of the parts.
-/

namespace StackCode

open List

/-! ## Shapes -/

namespace Json

/-- What may stand in the named fields of a value, in the order of the fields. -/
abbrev Fields := List (String × (Json → Prop))

/-- Some values are as they may be, field by field. -/
abbrev Fields.Hold (fields : Fields) (pairs : List (String × Json)) : Prop :=
  List.Forall₂ (fun field pair => pair.1 = field.1 ∧ field.2 pair.2) fields pairs

/-- A record gives its fields by name, or all of them by position. -/
inductive IsRecord (fields : Fields) : Json → Prop where
  | byName {pairs : List (String × Json)} (each : fields.Hold pairs) :
      IsRecord fields (.object pairs)
  | byPosition {values : List Json} (each : List.Forall₂ (fun field j => field.2 j) fields values) :
      IsRecord fields (.array values)

/-- The fields of a variant are given by name. -/
inductive IsFields (fields : Fields) : Json → Prop where
  | byName {pairs : List (String × Json)} (each : fields.Hold pairs) :
      IsFields fields (.object pairs)

/-- A variant that carries something. -/
inductive IsTagged (tag : String) (content : Json → Prop) : Json → Prop where
  | intro {j : Json} (inside : content j) : IsTagged tag content (tagged tag j)

/-- An array of items. -/
inductive IsList (items : List (Json → Prop)) : Json → Prop where
  | intro {values : List Json} (each : List.Forall₂ (fun item j => item j) items values) :
      IsList items (.array values)

/-- A value or null. -/
def IsOptional : Option (Json → Prop) → Json → Prop
  | none => (· = .null)
  | some value => value

end Json

open Json

/-! ## Parts without recursion -/

/-- A text has one spelling. -/
def TextSpelled (text : String) : Json → Prop := (· = .string text)

/-- A number has one spelling. -/
def NatSpelled (n : Nat) : Json → Prop := (· = .ofNat n)

/-- A text that may be missing has one spelling. -/
def OptionalTextSpelled (text : Option String) : Json → Prop := (· = .textOrNull text)

/-- The spellings of a span. -/
def Span.Spelled (span : Span) : Json → Prop :=
  IsRecord [("line", NatSpelled span.line), ("column", NatSpelled span.column),
    ("end_line", NatSpelled span.endLine), ("end_column", NatSpelled span.endColumn)]

/-- The spellings of a node. -/
def Span.NodeSpelled (span : Span) (kind : Json → Prop) : Json → Prop :=
  IsRecord [("kind", kind), ("span", span.Spelled)]

/-- The spellings of a path. -/
def Path.Spelled (path : Path) : Json → Prop :=
  IsRecord [("segments", IsList (path.segments.map TextSpelled)),
    ("absolute", (· = .bool path.absolute))]

/-- The spellings of the rest in a pattern. -/
def Rest.Spelled (rest : Rest) : Json → Prop :=
  IsRecord [("position", NatSpelled rest.position), ("binding", OptionalTextSpelled rest.binding)]

/-- The spellings of an attribute. -/
def Attribute.Spelled (a : Attribute) : Json → Prop :=
  IsRecord [("name", TextSpelled a.name), ("type_annotation", OptionalTextSpelled a.declaredType)]

/-- The spellings of an alias. -/
def Alias.Spelled (a : Alias) : Json → Prop :=
  IsRecord [("new_name", TextSpelled a.newName), ("old_name", TextSpelled a.oldName)]

/-- The spellings of an import. -/
def Using.Spelled : Using → Json → Prop
  | .constant path newName =>
    IsTagged "Constant" (IsFields [("path", path.Spelled), ("alias", OptionalTextSpelled newName)])
  | .all path => IsTagged "AllConstants" path.Spelled

/-- Parts that are no records are written in one way. -/
def Literal.Spelled (value : Literal) : Json → Prop := (· = value.toJson)

/-- The spelling of a target. -/
def Target.Spelled (target : Target) : Json → Prop := (· = target.toJson)

/-! ## Patterns -/

mutual

/-- The spellings of a pattern. -/
def Pattern.Spelled : Pattern → Json → Prop
  | .wildcard span => span.NodeSpelled (TextSpelled "Wildcard")
  | .binding span name => span.NodeSpelled (IsTagged "Binding" (TextSpelled name))
  | .literal span value => span.NodeSpelled (IsTagged "Literal" value.Spelled)
  | .sequence span kind elements rest =>
    span.NodeSpelled (IsTagged "Sequence" (IsFields [
      ("kind", TextSpelled kind.tag),
      ("elements", IsList (patternSpellings elements)),
      ("rest", IsOptional (rest.map Rest.Spelled))]))
  | .map span entries => span.NodeSpelled (IsTagged "Map" (IsList (patternEntrySpellings entries)))

/-- Those of patterns. -/
def patternSpellings : List Pattern → List (Json → Prop)
  | [] => []
  | p :: rest => p.Spelled :: patternSpellings rest

/-- Those of the entries of a map. -/
def patternEntrySpellings : List (Literal × Pattern) → List (Json → Prop)
  | [] => []
  | (key, p) :: rest =>
    IsRecord [("key", key.Spelled), ("pattern", p.Spelled)] :: patternEntrySpellings rest

end

/-! ## Expressions and statements -/

mutual

/-- The spellings of an expression. -/
def Expr.Spelled : Expr → Json → Prop
  | .literal span value => span.NodeSpelled value.Spelled
  | .self span => span.NodeSpelled (TextSpelled "SelfValue")
  | .sequence span kind items => span.NodeSpelled (IsTagged kind.tag (IsList (exprSpellings items)))
  | .map span entries => span.NodeSpelled (IsTagged "Map" (IsList (entrySpellings entries)))
  | .local span name => span.NodeSpelled (IsTagged "Identifier" (TextSpelled name))
  | .ivar span name => span.NodeSpelled (IsTagged "InstanceVariable" (TextSpelled name))
  | .constant span path => span.NodeSpelled (IsTagged "Constant" path.Spelled)
  | .assign span target operator value =>
    span.NodeSpelled (IsTagged "Assign" (IsFields [
      ("target", target.Spelled),
      ("operator", OptionalTextSpelled (operator.map BinaryOp.tag)),
      ("value", value.Spelled)]))
  | .binary span operator left right =>
    span.NodeSpelled (IsTagged "Binary" (IsFields [
      ("operator", TextSpelled operator.tag), ("left", left.Spelled), ("right", right.Spelled)]))
  | .unary span operator operand =>
    span.NodeSpelled (IsTagged "Unary" (IsFields [
      ("operator", TextSpelled operator.tag), ("operand", operand.Spelled)]))
  | .logical span operator left right =>
    span.NodeSpelled (IsTagged operator.tag (IsFields [
      ("left", left.Spelled), ("right", right.Spelled)]))
  | .block span body => span.NodeSpelled (IsTagged "Do" (IsList (stmtSpellings body)))
  | .conditional span condition thenBranch elseBranch =>
    span.NodeSpelled (IsTagged "If" (IsFields [
      ("condition", condition.Spelled),
      ("then_branch", IsList (stmtSpellings thenBranch)),
      ("else_branch", IsOptional (blockSpelling elseBranch))]))
  | .switch span subject cases elseBranch =>
    span.NodeSpelled (IsTagged "Switch" (IsFields [
      ("subject", subject.Spelled),
      ("cases", IsList (caseSpellings cases)),
      ("else_branch", IsOptional (blockSpelling elseBranch))]))
  | .closure span params body =>
    span.NodeSpelled (IsTagged "Closure" (IsFields [
      ("params", IsList (paramSpellings params)), ("body", IsList (stmtSpellings body))]))
  | .methodCall span receiver name arguments =>
    span.NodeSpelled (IsTagged "MethodCall" (IsFields [
      ("receiver", receiver.Spelled), ("name", TextSpelled name),
      ("arguments", IsList (exprSpellings arguments))]))
  | .selfCall span name arguments =>
    span.NodeSpelled (IsTagged "SelfCall" (IsFields [
      ("name", TextSpelled name), ("arguments", IsList (exprSpellings arguments))]))
  | .call span callee arguments =>
    span.NodeSpelled (IsTagged "Call" (IsFields [
      ("callee", callee.Spelled), ("arguments", IsList (exprSpellings arguments))]))
  | .subscript span receiver index =>
    span.NodeSpelled (IsTagged "Subscript" (IsFields [
      ("receiver", receiver.Spelled), ("index", index.Spelled)]))
  | .new span className arguments =>
    span.NodeSpelled (IsTagged "New" (IsFields [
      ("class", className.Spelled), ("arguments", IsList (exprSpellings arguments))]))
  | .raise span error => span.NodeSpelled (IsTagged "Raise" error.Spelled)

/-- The spellings of expressions. -/
def exprSpellings : List Expr → List (Json → Prop)
  | [] => []
  | e :: rest => e.Spelled :: exprSpellings rest

/-- The spellings of the entries of a map. -/
def entrySpellings : List (Expr × Expr) → List (Json → Prop)
  | [] => []
  | (key, value) :: rest =>
    IsRecord [("key", key.Spelled), ("value", value.Spelled)] :: entrySpellings rest

/-- The spellings of a last branch. -/
def blockSpelling : Option (List Stmt) → Option (Json → Prop)
  | none => none
  | some body => some (IsList (stmtSpellings body))

/-- The spellings of a value that may be missing. -/
def exprSpelling : Option Expr → Option (Json → Prop)
  | none => none
  | some e => some e.Spelled

/-- The spellings of the cases of a switch. -/
def caseSpellings : List SwitchCase → List (Json → Prop)
  | [] => []
  | ⟨pattern, body, span⟩ :: rest =>
    IsRecord [("pattern", pattern.Spelled), ("body", IsList (stmtSpellings body)),
      ("span", span.Spelled)] :: caseSpellings rest

/-- The spellings of parameters. -/
def paramSpellings : List Parameter → List (Json → Prop)
  | [] => []
  | ⟨name, default, declaredType, span⟩ :: rest =>
    IsRecord [("name", TextSpelled name), ("default", IsOptional (exprSpelling default)),
      ("type_annotation", OptionalTextSpelled declaredType), ("span", span.Spelled)] ::
        paramSpellings rest

/-- The spellings of a statement. -/
def Stmt.Spelled : Stmt → Json → Prop
  | .expression span value => span.NodeSpelled (IsTagged "Expression" value.Spelled)
  | .ret span value => span.NodeSpelled (IsTagged "Return" (IsOptional (exprSpelling value)))
  | .loop span condition body =>
    span.NodeSpelled (IsTagged "While" (IsFields [
      ("condition", condition.Spelled), ("body", IsList (stmtSpellings body))]))
  | .variable span name mutable declaredType initializer =>
    span.NodeSpelled (IsTagged "Variable" (IsRecord [
      ("name", TextSpelled name), ("mutable", (· = .bool mutable)),
      ("type_annotation", OptionalTextSpelled declaredType),
      ("initializer", IsOptional (exprSpelling initializer))]))
  | .patternVariable span pattern mutable initializer =>
    span.NodeSpelled (IsTagged "PatternVariable" (IsFields [
      ("pattern", pattern.Spelled), ("mutable", (· = .bool mutable)),
      ("initializer", initializer.Spelled)]))
  | .constant span name declaredType value =>
    span.NodeSpelled (IsTagged "Constant" (IsFields [
      ("name", TextSpelled name), ("type_annotation", OptionalTextSpelled declaredType),
      ("value", value.Spelled)]))
  | .namespace span kind path superclass body =>
    span.NodeSpelled (IsTagged "Namespace" (IsRecord [
      ("kind", TextSpelled kind.variant), ("path", path.Spelled),
      ("superclass", IsOptional (superclass.map Path.Spelled)),
      ("body", IsList (stmtSpellings body))]))
  | .singleton span body => span.NodeSpelled (IsTagged "Singleton" (IsList (stmtSpellings body)))
  | .method span name params body =>
    span.NodeSpelled (IsTagged "Method" (IsRecord [
      ("name", TextSpelled name), ("params", IsList (paramSpellings params)),
      ("body", IsList (stmtSpellings body))]))
  | .signature span name params =>
    span.NodeSpelled (IsTagged "MethodSignature" (IsFields [
      ("name", TextSpelled name), ("params", IsList (paramSpellings params))]))
  | .attribute span kind entries =>
    span.NodeSpelled (IsTagged "Attribute" (IsFields [
      ("kind", TextSpelled kind.variant), ("entries", IsList (entries.map Attribute.Spelled))]))
  | .aliases span entries =>
    span.NodeSpelled (IsTagged "Alias" (IsList (entries.map Alias.Spelled)))
  | .ivar span name declaredType =>
    span.NodeSpelled (IsTagged "InstanceVariable" (IsFields [
      ("name", TextSpelled name), ("type_annotation", OptionalTextSpelled declaredType)]))
  | .include span paths => span.NodeSpelled (IsTagged "Include" (IsList (paths.map Path.Spelled)))
  | .using span entries => span.NodeSpelled (IsTagged "Using" (IsList (entries.map Using.Spelled)))

/-- Those of statements. -/
def stmtSpellings : List Stmt → List (Json → Prop)
  | [] => []
  | s :: rest => s.Spelled :: stmtSpellings rest

end

/-- The spellings of a unit. -/
def Program.Spelled (program : Program) : Json → Prop :=
  IsRecord [("statements", IsList (stmtSpellings program.statements)),
    ("span", program.span.Spelled)]

/-! ## Compiled functions -/

/-- The spellings of a location. -/
def Location.Spelled (l : Location) : Json → Prop :=
  IsRecord [("file", TextSpelled l.file), ("span", l.span.Spelled)]

/-- The spellings of a run. -/
def LineRun.Spelled (run : LineRun) : Json → Prop :=
  IsRecord [("line", NatSpelled run.line), ("instruction_count", NatSpelled run.count)]

/-- The spellings of a line table. -/
def LineTable.Spelled (t : LineTable) : Json → Prop :=
  IsRecord [("entries", IsList (t.runs.map LineRun.Spelled))]

/-- The spellings of a table of names. -/
def NameTable.Spelled (t : NameTable) : Json → Prop :=
  IsRecord [("names", IsList (t.names.toList.map TextSpelled))]

mutual

/-- The spellings of a constant. -/
def Value.Spelled : Value → Json → Prop
  | .nil => TextSpelled "Nil"
  | .int n => IsTagged "SmallInt" (· = .ofInt n.toInt)
  | .float x => IsTagged "Float" (· = .number (.float x))
  | .string s => IsTagged "String" (TextSpelled s)
  | .symbol s => IsTagged "Symbol" (TextSpelled s)
  | .ivars table => IsTagged "IvarIndices" table.Spelled
  | .function f => IsTagged "Function" f.Spelled

/-- Those of constants. -/
def valueSpellings : List Value → List (Json → Prop)
  | [] => []
  | v :: rest => v.Spelled :: valueSpellings rest

/-- The spellings of a function. -/
def CompiledFunction.Spelled : CompiledFunction → Json → Prop
  | ⟨name, code, location, lines, constants, required, optional, upvalues⟩ =>
    IsRecord [
      ("name", TextSpelled name),
      ("instructions", IsList (code.toList.map fun b => NatSpelled b.toNat)),
      ("location", location.Spelled),
      ("line_table", lines.Spelled),
      ("constants", IsList (valueSpellings constants)),
      ("required_params", NatSpelled required),
      ("optional_params", NatSpelled optional),
      ("upvalue_count", NatSpelled upvalues)]

end

/-! ## What trees are written as -/

theorem Json.Fields.Hold.field {fields : Fields} {pairs : List (String × Json)} {name : String}
    {spelled : Json → Prop} {j : Json} (is : spelled j) (rest : fields.Hold pairs) :
    Fields.Hold ((name, spelled) :: fields) ((name, j) :: pairs) :=
  .cons ⟨rfl, is⟩ rest

section

variable {α : Type} {spelled : α → Json → Prop} {write : α → Json} (each : ∀ a, spelled a (write a))

include each

theorem forall₂_spelled (as : List α) :
    Forall₂ (fun item j => item j) (as.map spelled) (as.map write) := by
  rw [forall₂_map_left_iff, forall₂_map_right_iff, forall₂_same]
  exact fun a _ => each a

theorem isOptional_ofOption (value : Option α) :
    IsOptional (value.map spelled) (.ofOption (value.map write)) := by
  cases value with
  | none => rfl
  | some a => exact each a

end

theorem textSpelled_string (text : String) : TextSpelled text (.string text) := rfl

theorem natSpelled_ofNat (n : Nat) : NatSpelled n (.ofNat n) := rfl

theorem Span.spelled_toJson (span : Span) : span.Spelled span.toJson :=
  .byName (.field rfl (.field rfl (.field rfl (.field rfl .nil))))

theorem Span.nodeSpelled_node (span : Span) {kind : Json → Prop} {j : Json} (is : kind j) :
    span.NodeSpelled kind (span.node j) :=
  .byName (.field is (.field span.spelled_toJson .nil))

theorem Span.spells (span : Span) {tag : String} {content : Json → Prop} {j : Json}
    (is : content j) :
    span.NodeSpelled (IsTagged tag content) (span.node (tagged tag j)) :=
  span.nodeSpelled_node (.intro is)

theorem Path.spelled_toJson (path : Path) : path.Spelled path.toJson :=
  .byName (.field (.intro (forall₂_spelled textSpelled_string path.segments)) (.field rfl .nil))

theorem Rest.spelled_toJson (rest : Rest) : rest.Spelled rest.toJson :=
  .byName (.field rfl (.field rfl .nil))

theorem Attribute.spelled_toJson (a : Attribute) : a.Spelled a.toJson :=
  .byName (.field rfl (.field rfl .nil))

theorem Alias.spelled_toJson (a : Alias) : a.Spelled a.toJson :=
  .byName (.field rfl (.field rfl .nil))

theorem Using.spelled_toJson : ∀ u : Using, u.Spelled u.toJson
  | .constant path _ => .intro (.byName (.field path.spelled_toJson (.field rfl .nil)))
  | .all path => .intro path.spelled_toJson

mutual

theorem Pattern.spelled_toJson : ∀ p : Pattern, p.Spelled p.toJson
  | .wildcard span => span.nodeSpelled_node rfl
  | .binding span _ => span.spells rfl
  | .literal span _ => span.spells rfl
  | .sequence span _ elements rest =>
    span.spells (.byName (.field rfl (.field (.intro (patterns_spelled elements))
      (.field (isOptional_ofOption Rest.spelled_toJson rest) .nil))))
  | .map span entries => span.spells (.intro (patternEntries_spelled entries))

theorem patterns_spelled : ∀ ps : List Pattern,
    Forall₂ (fun item j => item j) (patternSpellings ps) (patternsToJson ps)
  | [] => .nil
  | p :: rest => .cons p.spelled_toJson (patterns_spelled rest)

theorem patternEntries_spelled : ∀ entries : List (Literal × Pattern),
    Forall₂ (fun item j => item j) (patternEntrySpellings entries) (patternEntriesToJson entries)
  | [] => .nil
  | (_, p) :: rest =>
    .cons (.byName (.field rfl (.field p.spelled_toJson .nil))) (patternEntries_spelled rest)

end

mutual

theorem Expr.spelled_toJson : ∀ e : Expr, e.Spelled e.toJson
  | .literal span _ => span.nodeSpelled_node rfl
  | .self span => span.nodeSpelled_node rfl
  | .sequence span _ items => span.spells (.intro (exprs_spelled items))
  | .map span entries => span.spells (.intro (entries_spelled entries))
  | .local span _ => span.spells rfl
  | .ivar span _ => span.spells rfl
  | .constant span path => span.spells path.spelled_toJson
  | .assign span _ _ value =>
    span.spells (.byName (.field rfl (.field rfl (.field value.spelled_toJson .nil))))
  | .binary span _ left right =>
    span.spells (.byName
      (.field rfl (.field left.spelled_toJson (.field right.spelled_toJson .nil))))
  | .unary span _ operand => span.spells (.byName (.field rfl (.field operand.spelled_toJson .nil)))
  | .logical span _ left right =>
    span.spells (.byName (.field left.spelled_toJson (.field right.spelled_toJson .nil)))
  | .block span body => span.spells (.intro (stmts_spelled body))
  | .conditional span condition thenBranch elseBranch =>
    span.spells (.byName
      (.field condition.spelled_toJson (.field (.intro (stmts_spelled thenBranch))
      (.field (block_spelled elseBranch) .nil))))
  | .switch span subject cases elseBranch =>
    span.spells (.byName (.field subject.spelled_toJson (.field (.intro (cases_spelled cases))
      (.field (block_spelled elseBranch) .nil))))
  | .closure span params body =>
    span.spells (.byName (.field (.intro (params_spelled params))
      (.field (.intro (stmts_spelled body)) .nil)))
  | .methodCall span receiver _ arguments =>
    span.spells (.byName (.field receiver.spelled_toJson (.field rfl
      (.field (.intro (exprs_spelled arguments)) .nil))))
  | .selfCall span _ arguments =>
    span.spells (.byName (.field rfl (.field (.intro (exprs_spelled arguments)) .nil)))
  | .call span callee arguments =>
    span.spells (.byName (.field callee.spelled_toJson
      (.field (.intro (exprs_spelled arguments)) .nil)))
  | .subscript span receiver index =>
    span.spells (.byName (.field receiver.spelled_toJson (.field index.spelled_toJson .nil)))
  | .new span className arguments =>
    span.spells (.byName (.field className.spelled_toJson
      (.field (.intro (exprs_spelled arguments)) .nil)))
  | .raise span error => span.spells error.spelled_toJson

theorem exprs_spelled : ∀ es : List Expr,
    Forall₂ (fun item j => item j) (exprSpellings es) (exprsToJson es)
  | [] => .nil
  | e :: rest => .cons e.spelled_toJson (exprs_spelled rest)

theorem entries_spelled : ∀ entries : List (Expr × Expr),
    Forall₂ (fun item j => item j) (entrySpellings entries) (entriesToJson entries)
  | [] => .nil
  | (key, value) :: rest =>
    .cons (.byName (.field key.spelled_toJson (.field value.spelled_toJson .nil)))
      (entries_spelled rest)

theorem block_spelled : ∀ block : Option (List Stmt),
    IsOptional (blockSpelling block) (blockToJson block)
  | none => rfl
  | some body => .intro (stmts_spelled body)

theorem expr_spelled : ∀ e : Option Expr, IsOptional (exprSpelling e) (exprToJson? e)
  | none => rfl
  | some e => e.spelled_toJson

theorem cases_spelled : ∀ cases : List SwitchCase,
    Forall₂ (fun item j => item j) (caseSpellings cases) (casesToJson cases)
  | [] => .nil
  | ⟨pattern, body, span⟩ :: rest =>
    .cons (.byName (.field pattern.spelled_toJson (.field (.intro (stmts_spelled body))
      (.field span.spelled_toJson .nil)))) (cases_spelled rest)

theorem params_spelled : ∀ params : List Parameter,
    Forall₂ (fun item j => item j) (paramSpellings params) (paramsToJson params)
  | [] => .nil
  | ⟨_, default, _, span⟩ :: rest =>
    .cons (.byName (.field rfl (.field (expr_spelled default) (.field rfl
      (.field span.spelled_toJson .nil))))) (params_spelled rest)

theorem Stmt.spelled_toJson : ∀ s : Stmt, s.Spelled s.toJson
  | .expression span value => span.spells value.spelled_toJson
  | .ret span value => span.spells (expr_spelled value)
  | .loop span condition body =>
    span.spells (.byName
      (.field condition.spelled_toJson (.field (.intro (stmts_spelled body)) .nil)))
  | .variable span _ _ _ initializer =>
    span.spells (.byName (.field rfl (.field rfl (.field rfl
      (.field (expr_spelled initializer) .nil)))))
  | .patternVariable span pattern _ initializer =>
    span.spells (.byName (.field pattern.spelled_toJson (.field rfl
      (.field initializer.spelled_toJson .nil))))
  | .constant span _ _ value =>
    span.spells (.byName (.field rfl (.field rfl (.field value.spelled_toJson .nil))))
  | .namespace span _ path superclass body =>
    span.spells (.byName (.field rfl (.field path.spelled_toJson
      (.field (isOptional_ofOption Path.spelled_toJson superclass)
      (.field (.intro (stmts_spelled body)) .nil)))))
  | .singleton span body => span.spells (.intro (stmts_spelled body))
  | .method span _ params body =>
    span.spells (.byName (.field rfl (.field (.intro (params_spelled params))
      (.field (.intro (stmts_spelled body)) .nil))))
  | .signature span _ params =>
    span.spells (.byName (.field rfl (.field (.intro (params_spelled params)) .nil)))
  | .attribute span _ entries =>
    span.spells (.byName (.field rfl
      (.field (.intro (forall₂_spelled Attribute.spelled_toJson entries)) .nil)))
  | .aliases span entries => span.spells (.intro (forall₂_spelled Alias.spelled_toJson entries))
  | .ivar span _ _ => span.spells (.byName (.field rfl (.field rfl .nil)))
  | .include span paths => span.spells (.intro (forall₂_spelled Path.spelled_toJson paths))
  | .using span entries => span.spells (.intro (forall₂_spelled Using.spelled_toJson entries))

theorem stmts_spelled : ∀ ss : List Stmt,
    Forall₂ (fun item j => item j) (stmtSpellings ss) (stmtsToJson ss)
  | [] => .nil
  | s :: rest => .cons s.spelled_toJson (stmts_spelled rest)

end

theorem Program.spelled_toJson (program : Program) : program.Spelled program.toJson :=
  .byName (.field (.intro (stmts_spelled program.statements))
    (.field program.span.spelled_toJson .nil))

theorem Location.spelled_toJson (l : Location) : l.Spelled l.toJson :=
  .byName (.field rfl (.field l.span.spelled_toJson .nil))

theorem LineTable.spelled_toJson (t : LineTable) : t.Spelled t.toJson :=
  .byName (.field (.intro (forall₂_spelled
    (fun _ => .byName (.field rfl (.field rfl .nil))) t.runs)) .nil)

theorem NameTable.spelled_toJson (t : NameTable) : t.Spelled t.toJson :=
  .byName (.field (.intro (forall₂_spelled textSpelled_string t.names.toList)) .nil)

mutual

theorem Value.spelled_toJson : ∀ v : Value, v.Spelled v.toJson
  | .nil => rfl
  | .int _ => .intro rfl
  | .float _ => .intro rfl
  | .string _ => .intro rfl
  | .symbol _ => .intro rfl
  | .ivars table => .intro table.spelled_toJson
  | .function f => .intro f.spelled_toJson

theorem values_spelled : ∀ vs : List Value,
    Forall₂ (fun item j => item j) (valueSpellings vs) (valuesToJson vs)
  | [] => .nil
  | v :: rest => .cons v.spelled_toJson (values_spelled rest)

theorem CompiledFunction.spelled_toJson : ∀ f : CompiledFunction, f.Spelled f.toJson
  | ⟨_, code, location, lines, constants, _, _, _⟩ =>
    .byName (.field rfl (.field
      (.intro (forall₂_spelled (fun b => natSpelled_ofNat b.toNat) code.toList))
      (.field location.spelled_toJson (.field lines.spelled_toJson
        (.field (.intro (values_spelled constants)) (.field rfl (.field rfl (.field rfl .nil))))))))

end

end StackCode
