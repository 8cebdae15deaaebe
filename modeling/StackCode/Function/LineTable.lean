import StackCode.Machine.Instr

/-!
# Line tables

A compiled function knows the source line of each of its instructions. Neighbouring instructions of
one line are kept as one run.
-/

namespace StackCode

/-- Consecutive instructions of one line. -/
structure LineRun where
  line : Nat
  count : Nat
deriving DecidableEq, Repr

/-- The source lines of a function's instructions. -/
structure LineTable where
  runs : List LineRun
deriving DecidableEq, Repr

namespace LineTable

def empty : LineTable := ⟨[]⟩

/-- Add a run behind other runs; it is joined with the last one if they have the same line. -/
def addRun (line count : Nat) : List LineRun → List LineRun
  | [] => [⟨line, count⟩]
  | [last] =>
    if last.line = line then [⟨line, last.count + count⟩] else [last, ⟨line, count⟩]
  | run :: next :: rest => run :: addRun line count (next :: rest)

def record (t : LineTable) (line count : Nat) : LineTable :=
  if count = 0 then t else ⟨addRun line count t.runs⟩

def prepend (t : LineTable) (line count : Nat) : LineTable :=
  if count = 0 then t
  else
    match t.runs with
    | [] => ⟨[⟨line, count⟩]⟩
    | first :: rest =>
      if first.line = line then ⟨⟨line, first.count + count⟩ :: rest⟩
      else ⟨⟨line, count⟩ :: first :: rest⟩

def total (t : LineTable) : Nat := t.runs.foldr (fun run n => run.count + n) 0

/-- The line of the instruction at a position among the runs. -/
def lineIn? : List LineRun → Nat → Option Nat
  | [], _ => none
  | run :: rest, index =>
    if index < run.count then some run.line else lineIn? rest (index - run.count)

def lineAt? (t : LineTable) (index : Nat) : Option Nat := lineIn? t.runs index

def ofCode (code : Code) : LineTable := code.foldr (fun l t => t.prepend l.line 1) empty

end LineTable

end StackCode
