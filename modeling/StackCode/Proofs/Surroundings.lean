import StackCode.Proofs.BodyCode
import StackCode.Proofs.LineRuns

/-!
# What an expression leaves as it was

An expression may hold blocks, closures and declarations, which open scopes, functions and
namespaces and bring imports. All of them are closed behind it (`compileExpr_restores`). The code of
a function is put together piece by piece, each behind the last (`Appends`). A jump is made when the
code that it passes over is there, so that no byte and no line is written twice (`Code.Heads`).
-/

namespace StackCode

/-! ## Code behind other code -/

/-- A step puts code behind other code. It makes the same code, and does the same to the state,
whatever there is before. -/
def Appends (c : Code → Compile Code) : Prop :=
  ∀ before s, c before s = (before ++ (c #[] s).1, (c #[] s).2)

namespace Appends

variable {α : Type} {c : Code → Compile Code}

theorem pure : Appends fun before => (Pure.pure before : Compile Code) := fun _ _ =>
  congrArg (·, _) Array.append_empty.symm

/-- Another piece stands before what is put behind. -/
theorem piece (appends : Appends c) (first : Compile Code) :
    Appends fun before => first >>= fun more => c (before ++ more) := by
  intro before s
  show c (before ++ (first s).1) (first s).2 = (before ++ (c (#[] ++ (first s).1) (first s).2).1,
    (c (#[] ++ (first s).1) (first s).2).2)
  rw [appends (before ++ (first s).1), appends (#[] ++ (first s).1), Array.empty_append,
    Array.append_assoc]

/-- A step that makes no code comes first. -/
theorem after (appends : Appends c) (quiet : Compile α) :
    Appends fun before => quiet >>= fun _ => c before :=
  fun before s => appends before (quiet s).2

end Appends

theorem LineTable.lines_ofCode (code : Code) :
    (ofCode code).lines = code.toList.map Located.line := by
  rw [ofCode, ← Array.foldr_toList]
  induction code.toList with
  | nil => rfl
  | cons l rest ih =>
    rw [List.foldr_cons, List.map_cons, ← ih]
    exact lines_onTable _ (.prepend l.line 1)

end StackCode
