import StackCode.Compile.Unit

/-!
# Views

A view says what of the places in a unit is seen: spans, lines and file names may be changed, and
warnings may be dropped. It is carried through everything that a compilation handles: trees, code,
functions, issues, declarations and states. What a view may not touch is the code itself.
-/

namespace StackCode

/-! ## Trees with other spans -/

section

variable (f : Span → Span)
variable (s : Stmt) (e : Expr) (params : List Parameter)

mutual

/-- Change the spans of a pattern. -/
def Pattern.mapSpans : Pattern → Pattern
  | .wildcard span => .wildcard (f span)
  | .binding span name => .binding (f span) name
  | .literal span value => .literal (f span) value
  | .sequence span kind elements rest => .sequence (f span) kind (mapPatterns elements) rest
  | .map span entries => .map (f span) (mapPatternEntries entries)

/-- Change the spans of patterns. -/
def mapPatterns : List Pattern → List Pattern
  | [] => []
  | p :: rest => p.mapSpans :: mapPatterns rest

/-- Change the spans of the entries of a map. -/
def mapPatternEntries : List (Literal × Pattern) → List (Literal × Pattern)
  | [] => []
  | (key, p) :: rest => (key, p.mapSpans) :: mapPatternEntries rest

end

mutual

/-- Change the spans of an expression. -/
def Expr.mapSpans : Expr → Expr
  | .literal span value => .literal (f span) value
  | .self span => .self (f span)
  | .sequence span kind items => .sequence (f span) kind (mapExprs items)
  | .map span entries => .map (f span) (mapEntries entries)
  | .local span name => .local (f span) name
  | .ivar span name => .ivar (f span) name
  | .constant span path => .constant (f span) path
  | .assign span target operator value => .assign (f span) target operator value.mapSpans
  | .binary span operator left right => .binary (f span) operator left.mapSpans right.mapSpans
  | .unary span operator operand => .unary (f span) operator operand.mapSpans
  | .logical span operator left right => .logical (f span) operator left.mapSpans right.mapSpans
  | .block span body => .block (f span) (mapStmts body)
  | .conditional span condition thenBranch elseBranch =>
    .conditional (f span) condition.mapSpans (mapStmts thenBranch) (mapBlock elseBranch)
  | .switch span subject cases elseBranch =>
    .switch (f span) subject.mapSpans (mapCases cases) (mapBlock elseBranch)
  | .closure span params body => .closure (f span) (mapParams params) (mapStmts body)
  | .methodCall span receiver name arguments =>
    .methodCall (f span) receiver.mapSpans name (mapExprs arguments)
  | .selfCall span name arguments => .selfCall (f span) name (mapExprs arguments)
  | .call span callee arguments => .call (f span) callee.mapSpans (mapExprs arguments)
  | .subscript span receiver index => .subscript (f span) receiver.mapSpans index.mapSpans
  | .new span className arguments => .new (f span) className (mapExprs arguments)
  | .raise span error => .raise (f span) error.mapSpans

/-- Change the spans of expressions. -/
def mapExprs : List Expr → List Expr
  | [] => []
  | e :: rest => e.mapSpans :: mapExprs rest

/-- Change the spans of the entries of a map. -/
def mapEntries : List (Expr × Expr) → List (Expr × Expr)
  | [] => []
  | (key, value) :: rest => (key.mapSpans, value.mapSpans) :: mapEntries rest

/-- Change the spans of a last branch. -/
def mapBlock : Option (List Stmt) → Option (List Stmt)
  | none => none
  | some body => some (mapStmts body)

/-- Change the spans of a value that may be missing. -/
def mapExpr : Option Expr → Option Expr
  | none => none
  | some e => some e.mapSpans

/-- Change the spans of the cases of a switch. -/
def mapCases : List SwitchCase → List SwitchCase
  | [] => []
  | ⟨pattern, body, span⟩ :: rest => ⟨pattern.mapSpans f, mapStmts body, f span⟩ :: mapCases rest

/-- Change the spans of parameters. -/
def mapParams : List Parameter → List Parameter
  | [] => []
  | ⟨name, default, declaredType, span⟩ :: rest =>
    ⟨name, mapExpr default, declaredType, f span⟩ :: mapParams rest

/-- Change the spans of a statement. -/
def Stmt.mapSpans : Stmt → Stmt
  | .expression span value => .expression (f span) value.mapSpans
  | .ret span value => .ret (f span) (mapExpr value)
  | .loop span condition body => .loop (f span) condition.mapSpans (mapStmts body)
  | .variable span name mutable declaredType initializer =>
    .variable (f span) name mutable declaredType (mapExpr initializer)
  | .patternVariable span pattern mutable initializer =>
    .patternVariable (f span) (pattern.mapSpans f) mutable initializer.mapSpans
  | .constant span name declaredType value => .constant (f span) name declaredType value.mapSpans
  | .namespace span kind path superclass body =>
    .namespace (f span) kind path superclass (mapStmts body)
  | .singleton span body => .singleton (f span) (mapStmts body)
  | .method span name params body => .method (f span) name (mapParams params) (mapStmts body)
  | .signature span name params => .signature (f span) name (mapParams params)
  | .attribute span kind entries => .attribute (f span) kind entries
  | .aliases span entries => .aliases (f span) entries
  | .ivar span name declaredType => .ivar (f span) name declaredType
  | .include span paths => .include (f span) paths
  | .using span entries => .using (f span) entries

/-- Change the spans of statements. -/
def mapStmts : List Stmt → List Stmt
  | [] => []
  | s :: rest => s.mapSpans :: mapStmts rest

end

/-- Change the spans of a unit. -/
def Program.mapSpans (program : Program) : Program :=
  ⟨mapStmts f program.statements, f program.span⟩

/-! ### What does not depend on spans -/

@[simp] theorem Pattern.span_mapSpans (p : Pattern) : (p.mapSpans f).span = f p.span := by
  cases p <;> rfl

@[simp] theorem Expr.span_mapSpans : (e.mapSpans f).span = f e.span := by
  cases e <;> rfl

@[simp] theorem Stmt.span_mapSpans : (s.mapSpans f).span = f s.span := by
  cases s <;> rfl

@[simp] theorem Expr.isPure_mapSpans : (e.mapSpans f).isPure = e.isPure := by
  cases e <;> rfl

@[simp] theorem Stmt.isReturn_mapSpans : (s.mapSpans f).isReturn = s.isReturn := by
  cases s <;> rfl

@[simp] theorem Stmt.producesCode_mapSpans : (s.mapSpans f).producesCode = s.producesCode := by
  cases s <;> rfl

@[simp] theorem length_mapPatterns (ps : List Pattern) : (mapPatterns f ps).length = ps.length := by
  induction ps with
  | nil => rfl
  | cons p rest ih => simp [mapPatterns, ih]

@[simp] theorem length_mapExprs (es : List Expr) : (mapExprs f es).length = es.length := by
  induction es with
  | nil => rfl
  | cons e rest ih => simp [mapExprs, ih]

@[simp] theorem length_mapEntries (entries : List (Expr × Expr)) :
    (mapEntries f entries).length = entries.length := by
  induction entries with
  | nil => rfl
  | cons entry rest ih => simp [mapEntries, ih]

@[simp] theorem isSome_mapExpr (e : Option Expr) : (mapExpr f e).isSome = e.isSome := by
  cases e <;> rfl

@[simp] theorem isNone_mapExpr (e : Option Expr) : (mapExpr f e).isNone = e.isNone := by
  cases e <;> rfl

@[simp] theorem requiredCount_mapParams :
    requiredCount (mapParams f params) = requiredCount params := by
  induction params with
  | nil => rfl
  | cons param rest ih =>
    obtain ⟨name, default, declaredType, span⟩ := param
    simp only [requiredCount] at ih
    simp [requiredCount, mapParams, List.countP_cons, ih]

@[simp] theorem optionalCount_mapParams :
    optionalCount (mapParams f params) = optionalCount params := by
  induction params with
  | nil => rfl
  | cons param rest ih =>
    obtain ⟨name, default, declaredType, span⟩ := param
    simp only [optionalCount] at ih
    simp [optionalCount, mapParams, List.countP_cons, ih]

mutual

theorem Stmt.runsAtDeclaration_mapSpans : ∀ s : Stmt,
    (s.mapSpans f).runsAtDeclaration = s.runsAtDeclaration
  | .namespace _ _ _ _ body => Stmt.anyRunsAtDeclaration_mapStmts body
  | .singleton _ body => Stmt.anyRunsAtDeclaration_mapStmts body
  | .expression _ _ | .ret _ _ | .loop _ _ _ | .variable _ _ _ _ _ | .patternVariable _ _ _ _
  | .constant _ _ _ _ | .method _ _ _ _ | .signature _ _ _ | .attribute _ _ _ | .aliases _ _
  | .ivar _ _ _ | .include _ _ | .using _ _ => rfl

theorem Stmt.anyRunsAtDeclaration_mapStmts : ∀ ss : List Stmt,
    anyRunsAtDeclaration (mapStmts f ss) = anyRunsAtDeclaration ss
  | [] => rfl
  | s :: rest => by
    rw [mapStmts, anyRunsAtDeclaration, anyRunsAtDeclaration, s.runsAtDeclaration_mapSpans,
      Stmt.anyRunsAtDeclaration_mapStmts rest]

end

@[simp] theorem staticLiteral?_mapSpans : staticLiteral? (e.mapSpans f) = staticLiteral? e := by
  cases e with
  | literal span value => cases value <;> rfl
  | _ => rfl

end

/-! ### A tree with its own spans -/

mutual

theorem Pattern.mapSpans_id : ∀ p : Pattern, p.mapSpans id = p
  | .wildcard _ | .binding _ _ | .literal _ _ => rfl
  | .sequence span kind elements rest => by
    rw [Pattern.mapSpans, mapPatterns_id elements]
    rfl
  | .map span entries => by
    rw [Pattern.mapSpans, mapPatternEntries_id entries]
    rfl

theorem mapPatterns_id : ∀ ps : List Pattern, mapPatterns id ps = ps
  | [] => rfl
  | p :: rest => by
    rw [mapPatterns, p.mapSpans_id, mapPatterns_id rest]

theorem mapPatternEntries_id : ∀ entries : List (Literal × Pattern),
    mapPatternEntries id entries = entries
  | [] => rfl
  | (key, p) :: rest => by
    rw [mapPatternEntries, p.mapSpans_id, mapPatternEntries_id rest]

end

mutual

theorem Expr.mapSpans_id : ∀ e : Expr, e.mapSpans id = e
  | .literal _ _ | .self _ | .local _ _ | .ivar _ _ | .constant _ _ => rfl
  | .sequence _ _ items => by simp [Expr.mapSpans, mapExprs_id items]
  | .map _ entries => by simp [Expr.mapSpans, mapEntries_id entries]
  | .assign _ _ _ value => by simp [Expr.mapSpans, value.mapSpans_id]
  | .binary _ _ left right => by simp [Expr.mapSpans, left.mapSpans_id, right.mapSpans_id]
  | .unary _ _ operand => by simp [Expr.mapSpans, operand.mapSpans_id]
  | .logical _ _ left right => by simp [Expr.mapSpans, left.mapSpans_id, right.mapSpans_id]
  | .block _ body => by simp [Expr.mapSpans, mapStmts_id body]
  | .conditional _ condition thenBranch elseBranch => by
    simp [Expr.mapSpans, condition.mapSpans_id, mapStmts_id thenBranch, mapBlock_id elseBranch]
  | .switch _ subject cases elseBranch => by
    simp [Expr.mapSpans, subject.mapSpans_id, mapCases_id cases, mapBlock_id elseBranch]
  | .closure _ params body => by simp [Expr.mapSpans, mapParams_id params, mapStmts_id body]
  | .methodCall _ receiver _ arguments => by
    simp [Expr.mapSpans, receiver.mapSpans_id, mapExprs_id arguments]
  | .selfCall _ _ arguments => by simp [Expr.mapSpans, mapExprs_id arguments]
  | .call _ callee arguments => by
    simp [Expr.mapSpans, callee.mapSpans_id, mapExprs_id arguments]
  | .subscript _ receiver index => by
    simp [Expr.mapSpans, receiver.mapSpans_id, index.mapSpans_id]
  | .new _ _ arguments => by simp [Expr.mapSpans, mapExprs_id arguments]
  | .raise _ error => by simp [Expr.mapSpans, error.mapSpans_id]

theorem mapExprs_id : ∀ es : List Expr, mapExprs id es = es
  | [] => rfl
  | e :: rest => by rw [mapExprs, e.mapSpans_id, mapExprs_id rest]

theorem mapEntries_id : ∀ entries : List (Expr × Expr), mapEntries id entries = entries
  | [] => rfl
  | (key, value) :: rest => by
    rw [mapEntries, key.mapSpans_id, value.mapSpans_id, mapEntries_id rest]

theorem mapBlock_id : ∀ block : Option (List Stmt), mapBlock id block = block
  | none => rfl
  | some body => by rw [mapBlock, mapStmts_id body]

theorem mapExpr_id : ∀ e : Option Expr, mapExpr id e = e
  | none => rfl
  | some e => by rw [mapExpr, e.mapSpans_id]

theorem mapCases_id : ∀ cases : List SwitchCase, mapCases id cases = cases
  | [] => rfl
  | ⟨pattern, body, span⟩ :: rest => by
    rw [mapCases, pattern.mapSpans_id, mapStmts_id body, mapCases_id rest]
    rfl

theorem mapParams_id : ∀ params : List Parameter, mapParams id params = params
  | [] => rfl
  | ⟨_, default, _, _⟩ :: rest => by
    rw [mapParams, mapExpr_id default, mapParams_id rest]
    rfl

theorem Stmt.mapSpans_id : ∀ s : Stmt, s.mapSpans id = s
  | .attribute _ _ _ | .aliases _ _ | .ivar _ _ _ | .include _ _ | .using _ _ => rfl
  | .expression _ value => by simp [Stmt.mapSpans, value.mapSpans_id]
  | .ret _ value => by simp [Stmt.mapSpans, mapExpr_id value]
  | .loop _ condition body => by simp [Stmt.mapSpans, condition.mapSpans_id, mapStmts_id body]
  | .variable _ _ _ _ initializer => by simp [Stmt.mapSpans, mapExpr_id initializer]
  | .patternVariable _ pattern _ initializer => by
    simp [Stmt.mapSpans, pattern.mapSpans_id, initializer.mapSpans_id]
  | .constant _ _ _ value => by simp [Stmt.mapSpans, value.mapSpans_id]
  | .namespace _ _ _ _ body => by simp [Stmt.mapSpans, mapStmts_id body]
  | .singleton _ body => by simp [Stmt.mapSpans, mapStmts_id body]
  | .method _ _ params body => by simp [Stmt.mapSpans, mapParams_id params, mapStmts_id body]
  | .signature _ _ params => by simp [Stmt.mapSpans, mapParams_id params]

theorem mapStmts_id : ∀ ss : List Stmt, mapStmts id ss = ss
  | [] => rfl
  | s :: rest => by rw [mapStmts, s.mapSpans_id, mapStmts_id rest]

end

theorem Program.mapSpans_id (program : Program) : program.mapSpans id = program := by
  rw [Program.mapSpans, mapStmts_id]
  rfl

/-! ## Views -/

/-- What is seen of the places in a unit. -/
structure View where
  span : Span → Span
  line : Nat → Nat
  lines : LineTable → LineTable
  file : String → String
  /-- Whether warnings of a kind are seen. -/
  keeps : Warning → Bool
  line_span : ∀ s, (span s).line = line s.line
  span_ending : ∀ s, span s.ending = (span s).ending
  span_point : ∀ n, span (.point n 0) = .point (line n) 0
  /-- Lines are seen one by one, whatever runs they are kept in. -/
  lines_ofCode : ∀ code : Code, lines (.ofCode code) =
    .ofCode (code.map fun l => ⟨line l.line, l.instr⟩)

namespace View

variable (V : View)

/-! ### Code and functions -/

/-- An instruction with its line, as it is shown. -/
def located (l : Located) : Located := ⟨V.line l.line, l.instr⟩

/-- Code as it is shown. -/
def code (code : Code) : Code := code.map V.located

/-- A location as it is shown. -/
def location (l : Location) : Location := ⟨V.file l.file, V.span l.span⟩

mutual

/-- A constant as it is shown. -/
def value : Value → Value
  | .nil => .nil
  | .int n => .int n
  | .float x => .float x
  | .string s => .string s
  | .symbol s => .symbol s
  | .ivars table => .ivars table
  | .function f => .function (function f)

/-- Constants as they are shown. -/
def values : List Value → List Value
  | [] => []
  | v :: rest => value v :: values rest

/-- A function as it is shown. -/
def function : CompiledFunction → CompiledFunction
  | ⟨name, code, location, lines, constants, required, optional, upvalues⟩ =>
    ⟨name, code, V.location location, V.lines lines, values constants, required, optional, upvalues⟩

end

/-- A pool as it is shown. -/
def pool (p : Pool) : Pool := { p with values := p.values.map V.value }

@[simp] theorem code_empty : V.code #[] = #[] := by
  simp [View.code]

@[simp] theorem code_append (a b : Code) : V.code (a ++ b) = V.code a ++ V.code b := by
  simp [View.code]

@[simp] theorem code_push (a : Code) (l : Located) : V.code (a.push l) =
    (V.code a).push (V.located l) := by
  simp [View.code]

@[simp] theorem code_one (span : Span) (instr : Instr) :
    V.code (.one span instr) = .one (V.span span) instr := by
  simp [View.code, Code.one, located, V.line_span]

@[simp] theorem code_plain (span : Span) (op : PlainOp) :
    V.code (.plain span op) = .plain (V.span span) op :=
  V.code_one span (.plain op)

@[simp] theorem code_placeholder (span : Span) :
    V.code (.placeholder span) = .placeholder (V.span span) :=
  V.code_one span _

@[simp] theorem byteSize_code (code : Code) : (V.code code).byteSize = code.byteSize := by
  rw [Code.byteSize, Code.byteSize, View.code, ← Array.foldl_toList, ← Array.foldl_toList,
    Array.toList_map, List.foldl_map]
  rfl

@[simp] theorem bytes_code (code : Code) : (V.code code).bytes = code.bytes := by
  rw [Code.bytes, Code.bytes, View.code, ← Array.foldl_toList, ← Array.foldl_toList,
    Array.toList_map, List.foldl_map]
  rfl

@[simp] theorem isEmpty_code (code : Code) : (V.code code).isEmpty = code.isEmpty := by
  simp [View.code, Array.isEmpty]

theorem lines_code (code : Code) : LineTable.ofCode (V.code code) = V.lines (.ofCode code) :=
  (V.lines_ofCode code).symm

theorem values_eq_map (vs : List Value) : V.values vs = vs.map V.value := by
  induction vs with
  | nil => rfl
  | cons v rest ih => rw [values, List.map_cons, ih]

@[simp] theorem key?_value (v : Value) : (V.value v).key? = v.key? := by
  cases v <;> rfl

@[simp] theorem pool_new : V.pool .new = .new := by
  simp [pool, Pool.new, value]

theorem add_pool (p : Pool) (v : Value) :
    (V.pool p).add (V.value v) = ((p.add v).1, V.pool (p.add v).2) := by
  have same : (V.pool p).find? (V.value v) = p.find? v := by
    simp [Pool.find?, pool]
  unfold Pool.add
  rw [same]
  cases p.find? v with
  | some index => rfl
  | none =>
    by_cases full : maxConstant < p.values.size
    · simp [pool, full]
    · simp [pool, full, Pool.push]

/-! ### Issues -/

/-- An issue as it is seen. A warning may not be. -/
def issue? (i : Issue) : Option Issue :=
  match i.problem with
  | .failure f => some ⟨.failure f, V.span i.span⟩
  | .warning w => if V.keeps w then some ⟨.warning w, V.span i.span⟩ else none

/-- The issues that are shown. -/
def issues (issues : Array Issue) : Array Issue := issues.filterMap V.issue?

@[simp] theorem issues_empty : V.issues #[] = #[] := by
  simp [View.issues]

@[simp] theorem issues_push_failure (issues : Array Issue) (f : Failure) (span : Span) :
    V.issues (issues.push (.failure f span)) =
      (V.issues issues).push (.failure f (V.span span)) := by
  simp [View.issues, issue?, Issue.failure]

theorem issues_push_warning (issues : Array Issue) (w : Warning) (span : Span) :
    V.issues (issues.push (.warning w span)) =
      if V.keeps w then (V.issues issues).push (.warning w (V.span span)) else V.issues issues := by
  by_cases kept : V.keeps w <;> simp [View.issues, issue?, Issue.warning, kept]

/-! ### Declarations -/

/-- A contribution as it is shown. -/
def contribution : Contribution → Contribution
  | .include mixin => .include mixin
  | .declare name span => .declare name (V.span span)

/-- A namespace of the unit as it is shown. -/
def declaration (ns : DeclaredNamespace) : DeclaredNamespace :=
  { ns with
    superclassSpan := ns.superclassSpan.map V.span
    contributions := ns.contributions.map V.contribution
    singletonIvars := ns.singletonIvars.map fun ivar => (ivar.1, V.span ivar.2)
    span := V.span ns.span }

/-- What a unit declares, as it is shown. -/
def declared (d : Declared) : Declared := { d with namespaces := d.namespaces.map V.declaration }

/-! ### States -/

/-- Options as they are seen: what is not seen is not asked for. -/
def options (o : Options) : Options where
  file := V.file o.file
  mainName := o.mainName
  warnUnusedValues := o.warnUnusedValues && V.keeps .unusedValue
  warnUnreachableCode := o.warnUnreachableCode && V.keeps .unreachableCode

/-- A unit as it is shown. -/
def unit (u : UnitInfo) : UnitInfo :=
  { u with options := V.options u.options, declared := V.declared u.declared }

/-- A site as it is shown. -/
def site (s : Site) : Site := { s with unit := V.unit s.unit }

/-- A function that is being compiled, as it is shown. -/
def frame (frame : Frame) : Frame := { frame with pool := V.pool frame.pool }

@[simp] theorem frame_new (isClosure : Bool) (ivars : IvarAccess) :
    V.frame (.new isClosure ivars) = .new isClosure ivars := by
  simp [frame, Frame.new]

/-- A namespace that is opened, as it is shown. -/
def record (r : NamespaceRecord) : NamespaceRecord := { r with span := V.span r.span }

/-- A state as it is shown. -/
def state (s : CompileState) : CompileState where
  issues := V.issues s.issues
  current := V.frame s.current
  enclosing := s.enclosing.map V.frame
  members := ⟨V.pool s.members.pool, V.code s.members.code⟩
  records := s.records.map V.record
  imports := s.imports

end View

end StackCode
