import StackCode.Proofs.PlaceIndependence

/-!
# Reports of illegal declarations

Every statement is compiled once, whatever failed before it, and with the construct that it stands
in. So each declaration that may not stand where it does is reported once, in the order of the text.
Only a function that runs out of slots may pass over something: the default value of a parameter
that got none.
-/

namespace StackCode

variable (options : Options) (base current : Registry) (program : Program)

theorem illegalIn_laidOut : illegalIn (program.laidOut base).issues = [] :=
  ((collectBody_grows base [rootName] program.statements ⟨.empty, #[]⟩).issues.trans
    (continues_link.trans continues_layOut)).illegalIn_eq

theorem illegalIn_compileUnit (fits : ¬Full (compileUnit options base program).issues) :
    illegalIn (compileUnit options base program).issues = illegalReports program.occurrences := by
  have run : (compileUnit options base program).issues =
    (compileProgram (program.unitInfo options base)
      program (.initial (program.laidOut base).issues)).2.issues := by
    rw [compileUnit_issues, compileProgram_run]
    rfl
  rw [run] at fits ⊢
  have told := (View.Sees.compileProgram (V := View.blank) (program.unitInfo options base)
    program).told
    (.initial (program.laidOut base).issues) trivial fits
  rw [told]
  exact congrArg (· ++ _) (illegalIn_laidOut base program)

theorem compileAgainst_diagnostics : ∃ more : List Issue,
    (∀ issue ∈ more, issue.problem.isIllegal = false) ∧
    (compileAgainst options base current program).1.diagnostics =
      ((compileUnit options base program).issues.toList ++ more).map
        (Issue.inFile options.file) := by
  unfold compileAgainst
  generalize compileUnit options base program = unit
  dsimp only
  split
  · exact ⟨[], nofun, by simp⟩
  · split
    · exact ⟨[], nofun, by simp⟩
    · exact ⟨publishConflicts base current unit.declared unit.layouts, fun _ member =>
        (problem_publishConflicts member).2, by simp⟩

/-- **Each illegal declaration is reported once.** Unless a function runs out of slots for its
variables, the reports of illegal declarations are those of the declarations of the text that may
not stand where they do, in the order of the text and at their places. -/
theorem illegal_declarations_reported
    (fits : ∀ d ∈ (compileAgainst options base current program).1.diagnostics,
      d.problem ≠ .failure .tooManyLocals) :
    (compileAgainst options base current program).1.diagnostics.filter (·.problem.isIllegal) =
      (illegalReports program.occurrences).map (Issue.inFile options.file) := by
  obtain ⟨more, legal, isDiagnostics⟩ := compileAgainst_diagnostics options base current program
  rw [isDiagnostics] at fits ⊢
  have room : ¬Full (compileUnit options base program).issues := fun ⟨issue, member, full⟩ =>
    fits _ (List.mem_map_of_mem (List.mem_append_left _ (Array.mem_toList_iff.mpr member))) full
  have others : more.filter (·.problem.isIllegal) = [] := by simpa using legal
  rw [List.filter_map, List.filter_append, ← illegalIn_compileUnit options base program room]
  exact congrArg (List.map _) ((congrArg (_ ++ ·) others).trans (List.append_nil _))

/-- A method that opens a singleton block, in which there are an alias and another method, and an
include in a closure of its default value. -/
def misplacedUnit : Program :=
  .ofStatements [.method ⟨1, 1, 9, 4⟩ "m" [⟨"p", some (.closure ⟨1, 7, 1, 20⟩ []
      [.include ⟨1, 9, 1, 18⟩ [⟨["M"], false⟩]]), none, ⟨1, 7, 1, 20⟩⟩]
    [.singleton ⟨2, 3, 8, 6⟩ [.aliases ⟨3, 5, 3, 15⟩ [⟨"a", "b"⟩], .method ⟨4, 5, 5, 8⟩ "n" [] []]]]

theorem illegal_declarations_reported_misplaced :
    (compileAgainst (.forFile "f") .prelude .prelude misplacedUnit).1.diagnostics.filter
        (·.problem.isIllegal) =
      [⟨.failure (.illegalConstruct .include .inBody), ⟨"f", ⟨1, 9, 1, 18⟩⟩⟩,
        ⟨.failure (.illegalConstruct .singleton .inBody), ⟨"f", ⟨2, 3, 8, 6⟩⟩⟩,
        ⟨.failure (.illegalConstruct .aliases (.inSingleton .class false)), ⟨"f", ⟨3, 5, 3, 15⟩⟩⟩,
        ⟨.failure (.illegalConstruct .method (.inSingleton .class false)), ⟨"f", ⟨4, 5, 5, 8⟩⟩⟩] :=
  illegal_declarations_reported (.forFile "f") .prelude .prelude misplacedUnit (by decide +kernel)

end StackCode
