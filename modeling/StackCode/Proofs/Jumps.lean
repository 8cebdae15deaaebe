import Mathlib.Algebra.GroupWithZero.Nat
import StackCode.Compile.Emit
import StackCode.Proofs.Reading

/-!
# Where jumps land

Where the jumps of a piece of code go (`targets`), and where its instructions start (`cuts`), if
the piece stands at a place. A piece of code may be put anywhere, and both move with it. Places are
integers, because a jump back subtracts.
-/

namespace StackCode

/-- The number of bytes of some instructions. -/
def codeSize (instrs : List Instr) : Nat := (instrs.map Instr.size).sum

@[simp] theorem codeSize_nil : codeSize [] = 0 := rfl

@[simp] theorem codeSize_cons (i : Instr) (rest : List Instr) :
    codeSize (i :: rest) = i.size + codeSize rest := rfl

@[simp] theorem codeSize_append (a b : List Instr) :
    codeSize (a ++ b) = codeSize a + codeSize b := by
  simp [codeSize]

/-- Where a jump that stands at a place goes. -/
def Instr.target? (place : Int) : Instr → Option Int
  | .jump .back distance => some (place + 3 - distance.toNat)
  | .jump _ distance => some (place + 3 + distance.toNat)
  | _ => none

/-- Where the jumps of a piece of code go, if it stands at a place. -/
def targets : Int → List Instr → List Int
  | _, [] => []
  | place, i :: rest => (i.target? place).toList ++ targets (place + i.size) rest

/-- Where the instructions of a piece of code start, and where it ends. -/
def cuts : Int → List Instr → List Int
  | place, [] => [place]
  | place, i :: rest => place :: cuts (place + i.size) rest

theorem targets_append (place : Int) (a b : List Instr) :
    targets place (a ++ b) = targets place a ++ targets (place + codeSize a) b := by
  induction a generalizing place with
  | nil => simp [targets]
  | cons i rest ih => simp [targets, ih, Int.add_assoc]

theorem mem_cuts_self (place : Int) (instrs : List Instr) : place ∈ cuts place instrs := by
  cases instrs <;> simp [cuts]

theorem mem_cuts_append {place t : Int} {a b : List Instr} :
    t ∈ cuts place (a ++ b) ↔ t ∈ cuts place a ∨ t ∈ cuts (place + codeSize a) b := by
  induction a generalizing place with
  | nil =>
    have := mem_cuts_self place b
    simp only [List.nil_append, cuts, List.mem_singleton, codeSize_nil, Int.natCast_zero,
      Int.add_zero]
    exact ⟨.inr, fun h => h.elim (· ▸ this) id⟩
  | cons i rest ih => simp [cuts, ih, or_assoc, Int.add_assoc]

theorem mem_cuts_end (place : Int) (instrs : List Instr) :
    place + codeSize instrs ∈ cuts place instrs := by
  have : place + codeSize instrs ∈ cuts place (instrs ++ []) :=
    mem_cuts_append.2 (.inr (mem_cuts_self _ _))
  rwa [List.append_nil] at this

theorem mem_cuts_end_zero (instrs : List Instr) : (codeSize instrs : Int) ∈ cuts 0 instrs := by
  simpa using mem_cuts_end 0 instrs

/-! ## Pieces of code -/

namespace Code

theorem byteSize_eq (code : Code) : code.byteSize = codeSize code.instrs := by
  have step : ∀ (located : List Located) (n : Nat),
      located.foldl (fun n l => n + l.instr.size) n = n + codeSize (located.map Located.instr) := by
    intro located
    induction located with
    | nil => simp
    | cons l rest ih => simp [ih, Nat.add_assoc]
  rw [byteSize, ← Array.foldl_toList, step, Nat.zero_add]
  rfl

@[simp] theorem instrs_empty : instrs #[] = [] := rfl

@[simp] theorem instrs_one (span : Span) (i : Instr) : (one span i).instrs = [i] := rfl

@[simp] theorem instrs_plain (span : Span) (op : PlainOp) :
    (plain span op).instrs = [.plain op] := rfl

end Code

end StackCode
