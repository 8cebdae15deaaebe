import Mathlib.Data.List.SplitBy
import StackCode.Function.LineTable

/-!
# Line tables as run lengths

A line table stands for a plain list of lines, one for each instruction. The runs of a table are
never empty and neighbours never have the same line (`LineTable.Canonical`), whichever end the
instructions are added at, so the table is the run-length encoding of its list and is read as that
list is.
-/

namespace StackCode

open List

/-- Some more instructions of one line, at the end or at the front. -/
inductive LineOp where
  | record (line count : Nat)
  | prepend (line count : Nat)

/-- What an operation does to a table. -/
def LineOp.onTable (t : LineTable) : LineOp → LineTable
  | .record line count => t.record line count
  | .prepend line count => t.prepend line count

/-- What it does to a list of lines. -/
def LineOp.onLines (lines : List Nat) : LineOp → List Nat
  | .record line count => lines ++ replicate count line
  | .prepend line count => replicate count line ++ lines

/-- The lines of a run. -/
def LineRun.lines (run : LineRun) : List Nat := replicate run.count run.line

/-- The runs of a list of lines. -/
def LineRun.ofLines (lines : List Nat) : List LineRun :=
  (lines.splitBy (· == ·)).map fun run => ⟨run.headD 0, run.length⟩

namespace LineTable

variable {line count : Nat} {runs : List LineRun} {t : LineTable}

/-- The lines of a table, one for each instruction. -/
def lines (t : LineTable) : List Nat := t.runs.flatMap LineRun.lines

/-- No run is empty, and neighbours have different lines. -/
structure Canonical (t : LineTable) : Prop where
  counts : ∀ run ∈ t.runs, run.count ≠ 0
  apart : t.runs.IsChain (·.line ≠ ·.line)

/-! ## Instructions at the end -/

theorem lines_addRun (line count : Nat) (runs : List LineRun) :
    (addRun line count runs).flatMap LineRun.lines = runs.flatMap LineRun.lines ++
      replicate count line := by
  fun_induction addRun with
  | case1 => simp [LineRun.lines]
  | case2 last same => simp [LineRun.lines, same]
  | case3 last other => simp [LineRun.lines]
  | case4 run next rest ih => rw [flatMap_cons, ih, ← append_assoc, ← flatMap_cons]

theorem counts_addRun (some : count ≠ 0) (counts : ∀ run ∈ runs, run.count ≠ 0) :
    ∀ run ∈ addRun line count runs, run.count ≠ 0 := by
  fun_induction addRun with
  | case1 => simpa using some
  | case2 last same => simp [some]
  | case3 last other => simp_all
  | case4 run next rest ih =>
    obtain ⟨first, others⟩ := forall_mem_cons.1 counts
    exact forall_mem_cons.2 ⟨first, ih others⟩

theorem addRun_cons (line count : Nat) (run : LineRun) (rest : List LineRun) :
    ∃ first others, addRun line count (run :: rest) = first :: others ∧ first.line = run.line := by
  cases rest with
  | nil =>
    unfold addRun
    split
    · next same => exact ⟨_, _, rfl, same.symm⟩
    · exact ⟨_, _, rfl, rfl⟩
  | cons next rest => exact ⟨_, _, rfl, rfl⟩

theorem apart_addRun (apart : runs.IsChain (·.line ≠ ·.line)) :
    (addRun line count runs).IsChain (·.line ≠ ·.line) := by
  fun_induction addRun with
  | case1 => exact .singleton _
  | case2 last same => exact .singleton _
  | case3 last other => exact .cons_cons other (.singleton _)
  | case4 run next rest ih =>
    obtain ⟨first, others, isCons, sameLine⟩ := addRun_cons line count next rest
    rw [isChain_cons_cons] at apart
    have added := ih apart.2
    rw [isCons] at added ⊢
    exact .cons_cons (sameLine ▸ apart.1) added

/-! ## One operation -/

theorem lines_onTable (t : LineTable) (op : LineOp) :
    (op.onTable t).lines = op.onLines t.lines := by
  cases op with
  | record line count =>
    show (t.record line count).lines = t.lines ++ replicate count line
    unfold record
    split
    · next none => rw [none, replicate_zero, append_nil]
    · exact lines_addRun line count t.runs
  | prepend line count =>
    show (t.prepend line count).lines = replicate count line ++ t.lines
    obtain ⟨runs⟩ := t
    unfold prepend
    split
    · next none => rw [none, replicate_zero, nil_append]
    · cases runs with
      | nil => rfl
      | cons first rest =>
        dsimp only
        split
        · next same => rw [lines, flatMap_cons, LineRun.lines, Nat.add_comm, replicate_add,
            append_assoc, lines, flatMap_cons,
            LineRun.lines, same]
        · rfl

theorem Canonical.onTable (canonical : t.Canonical) (op : LineOp) : (op.onTable t).Canonical := by
  cases op with
  | record line count =>
    show (t.record line count).Canonical
    unfold record
    split
    · exact canonical
    · next some => exact ⟨counts_addRun some canonical.counts, apart_addRun canonical.apart⟩
  | prepend line count =>
    show (t.prepend line count).Canonical
    obtain ⟨runs⟩ := t
    obtain ⟨counts, apart⟩ := canonical
    unfold prepend
    split
    · exact ⟨counts, apart⟩
    · next some =>
      cases runs with
      | nil => exact ⟨by simpa using some, .singleton _⟩
      | cons first rest =>
        obtain ⟨-, others⟩ := forall_mem_cons.1 counts
        dsimp only
        split
        · next same =>
          refine ⟨forall_mem_cons.2 ⟨by simp [some], others⟩, ?_⟩
          exact isChain_cons.2 ⟨fun next isNext => same ▸ (isChain_cons.1 apart).1 next isNext,
            (isChain_cons.1 apart).2⟩
        · next other => exact ⟨forall_mem_cons.2 ⟨some, counts⟩, .cons_cons (Ne.symm other) apart⟩

/-! ## Reading a table -/

theorem total_eq_length (t : LineTable) : t.total = t.lines.length := by
  obtain ⟨runs⟩ := t
  induction runs with
  | nil => rfl
  | cons run rest ih =>
    show run.count + (LineTable.mk rest).total = (run.lines ++ (LineTable.mk rest).lines).length
    rw [ih, length_append, LineRun.lines, length_replicate]

theorem lineIn?_eq (runs : List LineRun) (index : Nat) :
    lineIn? runs index = (runs.flatMap LineRun.lines)[index]? := by
  induction runs generalizing index with
  | nil => rfl
  | cons run rest ih =>
    unfold lineIn?
    rw [flatMap_cons, getElem?_append, LineRun.lines, length_replicate]
    split
    · next inside => rw [getElem?_replicate_of_lt inside]
    · exact ih _

/-- A table without empty runs and without neighbours of the same line is determined by its
lines. -/
theorem Canonical.runs_eq (canonical : t.Canonical) : t.runs = LineRun.ofLines t.lines := by
  have split : t.lines.splitBy (· == ·) = t.runs.map LineRun.lines := by
    refine splitBy_flatten (fun empty => ?_) (fun part isPart => ?_) ?_
    · obtain ⟨run, isRun, isEmpty⟩ := mem_map.1 empty
      exact canonical.counts run isRun (replicate_eq_nil_iff _ |>.1 isEmpty)
    · obtain ⟨run, -, rfl⟩ := mem_map.1 isPart
      exact isChain_replicate_of_rel _ (beq_self_eq_true _)
    · refine (isChain_map _).2 (canonical.apart.imp_of_mem_imp fun a b isLeft isRight other => ?_)
      have left : a.lines ≠ [] := mt (replicate_eq_nil_iff _).1 (canonical.counts a isLeft)
      have right : b.lines ≠ [] := mt (replicate_eq_nil_iff _).1 (canonical.counts b isRight)
      exact ⟨left, right, by simpa [LineRun.lines] using other⟩
  rw [LineRun.ofLines, split, map_map]
  refine (map_congr_left fun run isRun => ?_).trans (map_id _) |>.symm
  obtain ⟨n, isCount⟩ := Nat.exists_eq_succ_of_ne_zero (canonical.counts run isRun)
  obtain ⟨line, count⟩ := run
  cases isCount
  simp [LineRun.lines, replicate_succ]

/-! ## All operations -/

theorem lines_foldl (t : LineTable) (ops : List LineOp) :
    (ops.foldl LineOp.onTable t).lines = ops.foldl LineOp.onLines t.lines :=
  (foldl_hom lines fun t op => (lines_onTable t op).symm).symm

theorem Canonical.foldl (canonical : t.Canonical) (ops : List LineOp) :
    (ops.foldl LineOp.onTable t).Canonical := by
  induction ops generalizing t with
  | nil => exact canonical
  | cons op ops ih => exact ih (canonical.onTable op)

/-- **A line table is the run-length encoding of its history.** Whatever instructions are added, at
the end or at the front, the runs are those of the list with the same lines added: none is empty and
neighbours have different lines. The table counts as many instructions as the list has lines, and
finds the line of each. -/
theorem runs_eq_ofLines (ops : List LineOp) :
    let t := ops.foldl LineOp.onTable empty
    let lines := ops.foldl LineOp.onLines []
    t.runs = LineRun.ofLines lines ∧ t.runs.flatMap LineRun.lines = lines ∧
      (∀ run ∈ t.runs, run.count ≠ 0) ∧ t.runs.IsChain (·.line ≠ ·.line) ∧
      t.total = lines.length ∧ ∀ index, t.lineAt? index = lines[index]? := by
  intro t lines
  have canonical : t.Canonical := Canonical.foldl ⟨by simp, .nil⟩ ops
  have isLines : t.lines = lines := lines_foldl empty ops
  rw [← isLines]
  exact ⟨canonical.runs_eq, rfl, canonical.counts, canonical.apart, total_eq_length t,
    lineIn?_eq t.runs⟩

end LineTable

end StackCode
