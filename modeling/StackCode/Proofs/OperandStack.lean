import StackCode.Proofs.UnitPieces

/-!
# The operand stack

Whichever way an instruction of a compiled function is reached, there are as many operands on the
stack, and enough of them, and no path runs past the end of the code (`compileAgainst_passes`). It
follows from the same for the pieces that the code is made from, which are compiled where the state
agrees with the text before it (`CompileState.InText`).
-/

namespace StackCode

/-- The state of the compilation agrees with some place in the text of a unit. -/
def CompileState.InText (s : CompileState) : Prop := ∃ env t, Tracks s env t

theorem CompileState.initial_inText (issues : Array Issue) :
    (CompileState.initial issues).InText :=
  ⟨_, _, .initial issues⟩

/-- **A piece of code that is that of a flow is in order**, whatever is on the stack below what it
needs. -/
theorem Coded.passes {W : World} {start stop : Nat} {flow : Flow Op} {code : Code}
    (coded : Coded W start stop flow code) (depth : Nat) :
    Passes code.bytes (depth + start) (some (depth + stop)) := by
  have written : WrittenAs code.bytes code.instrs :=
    ⟨code.toList_bytes, fun _ member => (coded.codes 0).fits member⟩
  have labelled := (coded.codes 0).labelled (Encoded.sameEffect W)
    (coded.typed (depth + stop) depth) 0
  rw [Int.zero_add, Int.natCast_zero, Int.add_zero] at labelled
  exact labelled.passes written

/-- **The code of a finished function is in order**, and is not left at its end. -/
theorem Assembled.passes {scheme : Scheme} {room instrs : List Instr} {f : CompiledFunction}
    (assembled : Assembled scheme room instrs f) : Passes f.code 0 none := by
  refine Labelled.passes_none assembled.written fun stop => ?_
  have made : Labelled (fun _ _ => False) 0 0 0 room := by
    rcases assembled.isRoom with rfl | ⟨i, rfl⟩
    · exact .nil
    · refine .one (Nat.zero_le _) fun next member => .inl ?_
      exact ⟨List.mem_singleton.1 member, rfl⟩
  have body := (assembled.codes 0).labelled (Encoded.sameEffect _) (assembled.typed stop)
    (0 + codeSize room)
  refine made.append body (fun _ _ never => never.elim) ?_
  rintro next depth ⟨rfl, rfl⟩
  refine .inr ⟨?_, rfl⟩
  rw [codeSize_append]
  push_cast
  omega

section Pieces

variable {s : CompileState}

theorem compileExpr_passes (site : Site) (e : Expr) (inText : s.InText)
    (clean : ¬Failed (compileExpr site e s).2.issues) :
    (compileExpr site e s).2.InText ∧
      ∀ depth, Passes (compileExpr site e s).1.bytes depth (some (depth + 1)) := by
  obtain ⟨env, t, tracks⟩ := inText
  obtain ⟨tracks', -, coded⟩ := (compileExpr_pushes site e fun _ => True).holds s t tracks
    (fun _ _ => trivial) clean
  exact ⟨⟨_, _, tracks'⟩, fun depth => (coded _ (World.le_refl _)).passes depth⟩

theorem compileStmt_passes (site : Site) (stmt : Stmt) (inText : s.InText)
    (clean : ¬Failed (compileStmt site stmt s).2.issues) :
    (compileStmt site stmt s).2.InText ∧
      ∀ depth, Passes (compileStmt site stmt s).1.bytes depth (some depth) := by
  obtain ⟨env, t, tracks⟩ := inText
  obtain ⟨tracks', -, coded⟩ := (compileStmt_runs site stmt fun _ => True).holds s t tracks
    (fun _ _ => trivial) clean
  exact ⟨⟨_, _, tracks'⟩, fun depth => (coded _ (World.le_refl _)).passes depth⟩

end Pieces

/-- **The operand stack is in order** in every function that a unit is compiled to: from an empty
stack every path finds the same number of operands at an instruction, and enough of them, and none
leaves the code at its end. The code of an expression, wherever it is compiled, leaves one operand
more than there were, and that of a statement as many. -/
theorem compileAgainst_passes {options : Options} {base current : Registry} {program : Program}
    {f : CompiledFunction}
    (compiled : (compileAgainst options base current program).1.function = some f) :
    (∀ g ∈ f.walk, Passes g.code 0 none) ∧
      (∀ issues, (CompileState.initial issues).InText) ∧
      (∀ (s : CompileState) (site : Site) (e : Expr), s.InText →
        ¬Failed (compileExpr site e s).2.issues →
        (compileExpr site e s).2.InText ∧
          ∀ depth, Passes (compileExpr site e s).1.bytes depth (some (depth + 1))) ∧
      ∀ (s : CompileState) (site : Site) (stmt : Stmt), s.InText →
        ¬Failed (compileStmt site stmt s).2.issues →
        (compileStmt site stmt s).2.InText ∧
          ∀ depth, Passes (compileStmt site stmt s).1.bytes depth (some depth) := by
  obtain ⟨-, sound⟩ := compileAgainst_built compiled
  refine ⟨fun g member => ?_, CompileState.initial_inText, fun s site e =>
    compileExpr_passes site e,
    fun s site stmt => compileStmt_passes site stmt⟩
  obtain ⟨scheme, room, instrs, assembled⟩ := sound g member
  exact assembled.passes

theorem compileAgainst_passes_counter :
    ∃ f, (compileAgainst (.forFile "counter") .prelude .prelude counterUnit).1.function = some f ∧
      f.walk.length = 6 ∧ (∀ g ∈ f.walk, Passes g.code 0 none) ∧
      let site : Site := ⟨counterUnit.unitInfo (.forFile "counter") .prelude, [rootName], .topLevel⟩
      let negated : Expr := .unary .zero .not (.literal .zero (.int 300))
      Passes (compileExpr site negated (.initial #[])).1.bytes 2 (some 3) := by
  have size : (compileAgainst (.forFile "counter") .prelude .prelude counterUnit).1.function.map
      (·.walk.length) = some 6 := by
    decide +kernel
  obtain ⟨f, compiled, length⟩ := Option.map_eq_some_iff.1 size
  obtain ⟨functions, initial, expressions, -⟩ := compileAgainst_passes compiled
  exact ⟨f, compiled, length, functions, (expressions _ _ _ (initial #[]) (by decide +kernel)).2 2⟩

end StackCode
