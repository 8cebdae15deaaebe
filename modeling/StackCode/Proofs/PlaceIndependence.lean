import StackCode.Proofs.AllOrNothing
import StackCode.Proofs.ViewedCode

/-!
# Places do not matter to code

Two views settle what a compilation makes of places and of the switches for warnings. `View.blank`
sees no spans, files or warnings, so two units that differ in these alone look the same to it, and
so does what becomes of them. `View.without` drops the warnings of one kind and changes nothing
else.
-/

namespace StackCode

/-! ## Compilations under a view -/

namespace View

variable (V : View)

/-- A compiled unit as the view shows it. -/
def compiled (u : CompiledUnit) : CompiledUnit where
  function := V.function u.function
  issues := V.issues u.issues
  declared := V.declared u.declared
  layouts := u.layouts

/-- A diagnostic as it is seen. A warning may not be. -/
def diagnostic? (d : Diagnostic) : Option Diagnostic :=
  match d.problem with
  | .failure f => some ⟨.failure f, V.location d.location⟩
  | .warning w => if V.keeps w then some ⟨.warning w, V.location d.location⟩ else none

/-- An outcome as the view shows it. -/
def outcome (o : Outcome) : Outcome where
  function := o.function.map V.function
  diagnostics := o.diagnostics.filterMap V.diagnostic?

theorem compileUnit (options : Options) (registry : Registry) (p : Program) :
    StackCode.compileUnit (V.options options) registry (p.mapSpans V.span) =
      V.compiled (StackCode.compileUnit options registry p) := by
  have statements : (p.mapSpans V.span).statements = mapStmts V.span p.statements := rfl
  have span : (p.mapSpans V.span).span = V.span p.span := rfl
  unfold StackCode.compileUnit
  dsimp only
  rw [statements, span, V.collect, V.link]
  generalize StackCode.link registry p.statements
    (StackCode.collect registry p.statements) = linked
  dsimp only [collection]
  rw [V.layOut]
  generalize StackCode.layOut registry linked.declared linked.issues = laidOut
  have start : CompileState.initial (V.issues laidOut.issues) =
      V.state (.initial laidOut.issues) := by
    simp [CompileState.initial, state]
  have made : (compileProgram ⟨V.options options, registry, V.declared linked.declared,
      laidOut.layouts⟩ (p.mapSpans V.span)).run (V.state (.initial laidOut.issues)) = _ :=
    (Sees.compileProgram ⟨options, registry, linked.declared, laidOut.layouts⟩ p).same
      (.initial laidOut.issues)
  dsimp only [layingOut]
  rw [start, made, StateT.run]
  generalize StackCode.compileProgram _ p _ = ran
  exact congrArg (CompiledUnit.mk · _ _ _)
    (V.finish _ options.mainName options.file p.span 0 0 _)

theorem inFile_issue? (file : String) (i : Issue) :
    (V.issue? i).map (Issue.inFile (V.file file)) = V.diagnostic? (i.inFile file) := by
  obtain ⟨problem, span⟩ := i
  cases problem with
  | failure f => rfl
  | warning w =>
    by_cases kept : V.keeps w <;> simp [issue?, diagnostic?, Issue.inFile, location, kept]

theorem map_inFile (file : String) (issues : List Issue) :
    (issues.filterMap V.issue?).map (Issue.inFile (V.file file)) =
      (issues.map (Issue.inFile file)).filterMap V.diagnostic? := by
  rw [List.map_filterMap, List.filterMap_map]
  congr 1
  funext i
  exact V.inFile_issue? file i

theorem any_isFailure (issues : List Issue) :
    (issues.filterMap V.issue?).any (·.problem.isFailure) = issues.any (·.problem.isFailure) := by
  rw [List.any_filterMap]
  congr 1
  funext i
  obtain ⟨problem, span⟩ := i
  cases problem with
  | failure f => rfl
  | warning w =>
    by_cases kept : V.keeps w <;> simp [issue?, kept, Problem.isFailure, Problem.failure?]

/-- **A compilation commutes with a view.** -/
theorem compileAgainst (options : Options) (base current : Registry) (p : Program) :
    StackCode.compileAgainst (V.options options) base current (p.mapSpans V.span) =
      (V.outcome (StackCode.compileAgainst options base current p).1,
        (StackCode.compileAgainst options base current p).2) := by
  unfold StackCode.compileAgainst
  rw [V.compileUnit]
  generalize StackCode.compileUnit options base p = unit
  have failed : (V.issues unit.issues).any (·.problem.isFailure) =
      unit.issues.any (·.problem.isFailure) := by
    rw [← Array.any_toList, ← Array.any_toList, View.issues, Array.toList_filterMap, any_isFailure]
  have reported : (V.issues unit.issues).toList.map (Issue.inFile (V.file options.file)) =
      (unit.issues.toList.map (Issue.inFile options.file)).filterMap V.diagnostic? := by
    rw [View.issues, Array.toList_filterMap, map_inFile]
  have file : (V.options options).file = V.file options.file := rfl
  dsimp only [compiled]
  rw [failed, file, reported, V.publishConflicts, V.publishInto]
  split
  · rfl
  · cases conflicts : StackCode.publishConflicts base current unit.declared unit.layouts with
    | nil => rfl
    | cons first rest =>
      -- A conflict is a failure, so the view sees it.
      have failure : first.problem.isFailure = true :=
        (problem_publishConflicts (conflicts ▸ List.mem_cons_self)).1
      obtain ⟨problem, span⟩ := first
      cases problem with
      | warning w => cases failure
      | failure f =>
        have more := V.map_inFile options.file (⟨.failure f, span⟩ :: rest)
        show (Outcome.mk none _, current) = (Outcome.mk none _, current)
        rw [more, List.filterMap_append]

end View

/-! ## Units and functions without places -/

/-- A unit without its places. -/
def Program.withoutSpans (p : Program) : Program := p.mapSpans fun _ => Span.zero

mutual

/-- A constant without places. -/
def Value.withoutPlaces : Value → Value
  | .nil => .nil
  | .int n => .int n
  | .float x => .float x
  | .string s => .string s
  | .symbol s => .symbol s
  | .ivars table => .ivars table
  | .function f => .function f.withoutPlaces

/-- Constants without places. -/
def valuesWithoutPlaces : List Value → List Value
  | [] => []
  | v :: rest => v.withoutPlaces :: valuesWithoutPlaces rest

/-- A function without its location and its lines. -/
def CompiledFunction.withoutPlaces : CompiledFunction → CompiledFunction
  | ⟨name, code, _, _, constants, required, optional, upvalues⟩ =>
    ⟨name, code, ⟨"", Span.zero⟩, .empty, valuesWithoutPlaces constants, required, optional,
      upvalues⟩

end

mutual

theorem View.withoutPlaces_value (V : View) : ∀ v : Value,
    (V.value v).withoutPlaces = v.withoutPlaces
  | .function f => congrArg Value.function (V.withoutPlaces_function f)
  | .nil | .int _ | .float _ | .string _ | .symbol _ | .ivars _ => rfl

theorem View.withoutPlaces_values (V : View) : ∀ vs : List Value,
    valuesWithoutPlaces (V.values vs) = valuesWithoutPlaces vs
  | [] => rfl
  | v :: rest => by
    rw [View.values, valuesWithoutPlaces, valuesWithoutPlaces, V.withoutPlaces_value v,
      V.withoutPlaces_values rest]

theorem View.withoutPlaces_function (V : View) : ∀ f : CompiledFunction,
    (V.function f).withoutPlaces = f.withoutPlaces
  | ⟨name, code, location, lines, constants, required, optional, upvalues⟩ => by
    rw [View.function, CompiledFunction.withoutPlaces, CompiledFunction.withoutPlaces,
      V.withoutPlaces_values constants]

end

/-- The failures of an outcome, in the order of their reports. -/
def Outcome.failures (o : Outcome) : List Failure := o.diagnostics.filterMap (·.problem.failure?)

theorem View.failures_outcome (V : View) (o : Outcome) : (V.outcome o).failures = o.failures := by
  unfold Outcome.failures View.outcome
  rw [List.filterMap_filterMap]
  congr 1
  funext d
  obtain ⟨problem, location⟩ := d
  cases problem with
  | failure f => rfl
  | warning w =>
    by_cases kept : V.keeps w <;> simp [View.diagnostic?, kept, Problem.failure?]

/-! ## The view that sees no places -/

theorem LineTable.ofCode_eq (code : Code) :
    LineTable.ofCode code =
      (code.toList.map Located.line).foldr (fun line t => t.prepend line 1) .empty := by
  rw [LineTable.ofCode, ← Array.foldr_toList, List.foldr_map]

/-- The view that sees no spans, lines, files or warnings. -/
def View.blank : View where
  span _ := Span.zero
  line _ := 0
  lines t := .ofCode (Array.replicate t.total ⟨0, .plain .pop⟩)
  file _ := ""
  keeps _ := false
  line_span _ := rfl
  span_ending _ := rfl
  span_point _ := rfl
  lines_ofCode code := by
    rw [LineTable.total_ofCode, LineTable.ofCode_eq, LineTable.ofCode_eq, Code.instrs]
    simp [Function.comp_def, List.map_const']

theorem View.options_blank {options options' : Options}
    (same : options.mainName = options'.mainName) :
    View.blank.options options = View.blank.options options' := by
  simp [View.options, View.blank, same]

/-! ## The views that miss one kind of warning -/

/-- Do not ask for a warning. -/
def Options.without (options : Options) : Warning → Options
  | .unusedValue => { options with warnUnusedValues := false }
  | .unreachableCode => { options with warnUnreachableCode := false }

/-- Leave out a warning. -/
def Outcome.without (o : Outcome) (w : Warning) : Outcome :=
  { o with diagnostics := o.diagnostics.filter (·.problem ≠ .warning w) }

/-- The view without a warning. -/
def View.without (w : Warning) : View where
  span := id
  line := id
  lines := id
  file := id
  keeps other := other ≠ w
  line_span _ := rfl
  span_ending _ := rfl
  span_point _ := rfl
  lines_ofCode code := by
    simp

theorem View.options_without (w : Warning) (options : Options) :
    (View.without w).options options = options.without w := by
  cases w <;> simp [View.options, View.without, Options.without]

mutual

theorem View.value_without (w : Warning) : ∀ v : Value, (View.without w).value v = v
  | .function f => congrArg Value.function (View.function_without w f)
  | .nil | .int _ | .float _ | .string _ | .symbol _ | .ivars _ => rfl

theorem View.values_without (w : Warning) : ∀ vs : List Value, (View.without w).values vs = vs
  | [] => rfl
  | v :: rest => by
    rw [View.values, View.value_without w v, View.values_without w rest]

theorem View.function_without (w : Warning) : ∀ f : CompiledFunction,
    (View.without w).function f = f
  | ⟨name, code, location, lines, constants, required, optional, upvalues⟩ => by
    rw [View.function, View.values_without w constants]
    rfl

end

theorem View.outcome_without (w : Warning) (o : Outcome) :
    (View.without w).outcome o = o.without w := by
  have functions : o.function.map (View.without w).function = o.function := by
    rw [funext (View.function_without w), Option.map_id_fun']
    rfl
  have seen : (View.without w).diagnostic? = Option.guard fun d => d.problem ≠ .warning w := by
    funext d
    obtain ⟨problem, location⟩ := d
    cases problem with
    | failure f => simp [View.diagnostic?, View.without, View.location, Option.guard]
    | warning other =>
      by_cases same : other = w <;>
        simp [View.diagnostic?, View.without, View.location, Option.guard, same]
  unfold View.outcome Outcome.without
  rw [functions, seen, List.filterMap_eq_filter]

/-! ## The theorem -/

/-- **Places and switches for warnings do not change code.** Units that are the same without their
spans, compiled under options that name the main function alike, both succeed or both fail. They
have the same failures in the same order, functions that are the same without their places, and the
same registry. A switch that is turned off takes away the warnings of its kind and leaves everything
else as it is. -/
theorem code_independent_of_places :
    (∀ (options options' : Options) (base current : Registry) (p program' : Program),
      options.mainName = options'.mainName → p.withoutSpans = program'.withoutSpans →
        (compileAgainst options base current p).1.function.map
          CompiledFunction.withoutPlaces =
          (compileAgainst options' base current program').1.function.map
            CompiledFunction.withoutPlaces ∧
        (compileAgainst options base current p).1.failures =
          (compileAgainst options' base current program').1.failures ∧
        (compileAgainst options base current p).2 =
          (compileAgainst options' base current program').2) ∧
    (∀ (options : Options) (base current : Registry) (p : Program) (w : Warning),
      compileAgainst (options.without w) base current p =
        ((compileAgainst options base current p).1.without w,
          (compileAgainst options base current p).2)) := by
  constructor
  · intro options options' base current p program' sameName sameProgram
    have seen := View.blank.compileAgainst options base current p
    have seen' := View.blank.compileAgainst options' base current program'
    have sameTree : p.mapSpans View.blank.span = program'.mapSpans View.blank.span :=
      sameProgram
    rw [View.options_blank sameName, sameTree, seen'] at seen
    obtain ⟨outcomes, registries⟩ := Prod.mk.inj seen
    generalize (compileAgainst options base current p).1 = a at outcomes ⊢
    generalize (compileAgainst options' base current program').1 = b at outcomes ⊢
    refine ⟨?_, ?_, registries.symm⟩
    · have functions := congrArg (·.function.map CompiledFunction.withoutPlaces) outcomes
      simpa [View.outcome, Function.comp_def, View.withoutPlaces_function] using functions.symm
    · rw [← View.blank.failures_outcome a, ← View.blank.failures_outcome b, outcomes]
  · intro options base current p w
    have seen := (View.without w).compileAgainst options base current p
    have sameTree : p.mapSpans (View.without w).span = p := p.mapSpans_id
    rwa [View.options_without, sameTree, View.outcome_without] at seen

/-- A class is declared and returned, all of it at one place. -/
def returningUnit (at_ : Span) : Program :=
  ⟨[.namespace at_ .class ⟨["A"], false⟩ none [], .ret at_ (some (.constant at_ ⟨["A"], false⟩))],
    at_⟩

/-- The same unit in two files, at two places, and with and without warnings. -/
theorem code_independent_of_places_moved :
    let options := Options.forFile "a"
    let options' : Options := ⟨"b", "<main>", false, false⟩
    let p := returningUnit ⟨1, 1, 1, 9⟩
    let program' := returningUnit ⟨7, 3, 8, 2⟩
    options.mainName = options'.mainName ∧ p.withoutSpans = program'.withoutSpans ∧
      ∃ f f', (compileAgainst options .prelude .prelude p).1.function = some f ∧
        (compileAgainst options' .prelude .prelude program').1.function = some f' ∧
        f.withoutPlaces = f'.withoutPlaces ∧ f.location ≠ f'.location := by
  intro options options' p program'
  have same := (code_independent_of_places.1 options options' .prelude .prelude p program' rfl
    rfl).1
  have compiles : (compileAgainst options .prelude .prelude p).1.function.map
    (·.location.file) =
      some "a" := by
    decide +kernel
  have compiles' : (compileAgainst options' .prelude .prelude program').1.function.map
      (·.location.file) = some "b" := by
    decide +kernel
  obtain ⟨f, compiled, file⟩ := Option.map_eq_some_iff.1 compiles
  obtain ⟨f', compiled', file'⟩ := Option.map_eq_some_iff.1 compiles'
  rw [compiled, compiled'] at same
  refine ⟨rfl, rfl, f, f', compiled, compiled', Option.some.inj same, fun sameLocation => ?_⟩
  rw [sameLocation, file'] at file
  exact absurd file (by decide)

end StackCode
