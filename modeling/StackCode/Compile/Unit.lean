import StackCode.Compile.Body
import StackCode.Compile.Hoist
import StackCode.Namespace.Link
import StackCode.Namespace.Publish

/-!
# Compiling a unit

## Design Notes

A unit is published as a whole or not at all. Whether it can be is decided against the current
registry, also if the unit was compiled against an older one.
-/

namespace StackCode

structure CompiledUnit where
  function : CompiledFunction
  issues : Array Issue
  declared : Declared
  layouts : Layouts

def CompileState.initial (issues : Array Issue) : CompileState where
  issues := issues
  current := .new false .forbidden
  enclosing := []
  members := ⟨.new, #[]⟩
  records := .empty
  imports := .empty

/-- The code of a unit: what runs before its statements, and the statements. -/
def compileProgram (unit : UnitInfo) (program : Program) : Compile Code := do
  let span := program.span
  let body ← compileStmts ⟨unit, [rootName], .topLevel⟩ false false #[] program.statements
  let first ← prologue unit span
  return first ++ body ++ Code.plain span.ending .pushNil ++ Code.plain span.ending .ret

/-- What a unit is compiled to against a registry. -/
def compileUnit (options : Options) (registry : Registry) (program : Program) : CompiledUnit :=
  let collected := collect registry program.statements
  let linked := link registry program.statements collected
  let laidOut := layOut registry linked.declared linked.issues
  let unit : UnitInfo := ⟨options, registry, linked.declared, laidOut.layouts⟩
  let (code, state) := (compileProgram unit program).run (.initial laidOut.issues)
  { function := state.current.finish options.mainName options.file program.span 0 0 code
    issues := state.issues
    declared := linked.declared
    layouts := laidOut.layouts }

/-- The outcome of a compilation. There is no function if there is a failure. -/
structure Outcome where
  function : Option CompiledFunction
  diagnostics : List Diagnostic

def Outcome.failureCount (o : Outcome) : Nat := o.diagnostics.countP (·.problem.isFailure)

def Outcome.failureText (o : Outcome) : String :=
  "compilation failed with " ++ toString o.failureCount ++ " failure(s)"

/-- Compile a unit against one registry and publish it to another, the current one. -/
def compileAgainst (options : Options) (base current : Registry) (program : Program) :
    Outcome × Registry :=
  let unit := compileUnit options base program
  let diagnostics := unit.issues.toList.map (Issue.inFile options.file)
  if unit.issues.any (·.problem.isFailure) then (⟨none, diagnostics⟩, current)
  else
    match publishConflicts base current unit.declared unit.layouts with
    | [] => (⟨some unit.function, diagnostics⟩, publishInto base current unit.declared unit.layouts)
    | conflicts => (⟨none, diagnostics ++ conflicts.map (Issue.inFile options.file)⟩, current)

/-- Compile a unit against the current registry and publish it. -/
def compile (options : Options) (registry : Registry) (program : Program) : Outcome × Registry :=
  compileAgainst options registry registry program

end StackCode
