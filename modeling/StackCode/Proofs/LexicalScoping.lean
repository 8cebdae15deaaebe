import StackCode.Proofs.UnitPieces
import StackCode.Proofs.Ways

/-!
# Variables are lexically scoped

What a unit is compiled to is built from the scheme of its text, in which names are resolved where
they stand. So the slot or the index in an instruction denotes the variable that the text means
(`World.Denotes`), in closures of any depth. An index denotes the variable at that position among
those that the closure captures, and the closure is made with the places of just these variables.

A name that denotes no variable has no instruction, so there is none in what is compiled.
-/

namespace StackCode

/-- **Every variable that an instruction uses is the one that lexical scoping gives**, and every
closure captures the variables that its text mentions, each once. -/
theorem compileAgainst_built_scheme {o : Options} {base current : Registry}
    {p : Program} {f : CompiledFunction}
    (compiled : (compileAgainst o base current p).1.function = some f) :
    Built (p.scheme (p.unitInfo o base)) f :=
  (compileAgainst_built compiled).1

/-- A variable that is captured through two closures, and a parameter of the outer one. -/
def nestedUnit : Program :=
  let at_ := Span.zero
  .ofStatements [
    .variable at_ "x" true none (some (.literal at_ (.int 1))),
    .expression at_ (.closure at_ [⟨"y", none, none, at_⟩] [
      .expression at_ (.closure at_ [] [
        .expression at_ (.assign at_ (.local "x") (some .add) (.local at_ "y")),
        .expression at_ (.local at_ "x")])])]

theorem compileAgainst_built_scheme_nested :
    ∃ f, (compileAgainst (.forFile "nested") .prelude .prelude nestedUnit).1.function = some f ∧
      f.walk.map CompiledFunction.upvalues = [0, 1, 2] ∧
      Built (nestedUnit.scheme (nestedUnit.unitInfo (.forFile "nested") .prelude)) f := by
  have captures : (compileAgainst (.forFile "nested") .prelude .prelude nestedUnit).1.function.map
      (·.walk.map CompiledFunction.upvalues) = some [0, 1, 2] := by
    decide +kernel
  obtain ⟨f, compiled, each⟩ := Option.map_eq_some_iff.1 captures
  exact ⟨f, compiled, each, compileAgainst_built_scheme compiled⟩

/-- `val x; x = (x = 1)` -/
def nestedAssignment : Program :=
  .ofStatements [
    .variable .zero "x" false none none,
    .expression .zero (.assign .zero (.local "x") none
      (.assign .zero (.local "x") none (.literal .zero (.int 1))))]

/-- A `val` is not always assigned once. One that a unit begins with has slot 1 for itself, but the
code of `nestedAssignment` writes it twice: whether it has a value is asked before the value of an
assignment is compiled, and noted behind it. -/
theorem not_always_assigned_once : ¬∀ (o : Options) (p : Program) (f : CompiledFunction)
    (span : Span) (name : String) (type : Option String) (initializer : Option Expr)
    (rest : List Stmt),
    p.statements = .variable span name false type initializer :: rest →
    (compileAgainst o .prelude .prelude p).1.function = some f →
    f.reads.count (.indexed .setLocal 1) ≤ 1 := by
  intro once
  have twice : (compileAgainst (.forFile "nested") .prelude .prelude
      nestedAssignment).1.function.map (·.reads.count (.indexed .setLocal 1)) = some 2 := by
    decide +kernel
  obtain ⟨f, compiled, twice⟩ := Option.map_eq_some_iff.1 twice
  have atMost := once _ _ f _ _ _ _ _ rfl compiled
  omega

end StackCode
