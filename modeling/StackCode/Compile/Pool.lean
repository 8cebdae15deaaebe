import StackCode.Diagnostic
import StackCode.Function.Basic

/-!
# Pools under construction

## Design Notes

Entry 0 is nil, and stands in wherever a value could not be compiled. Beside the entries there is a
search tree from their keys to their indices. Functions and tables have no key and are added every
time.
-/

namespace StackCode

/-- The constants of a function that is being compiled. -/
structure Pool where
  values : Array Value
  indices : Std.ExtTreeMap ValueKey Nat ValueKey.order

def maxConstant : Nat := 65535

namespace Pool

def new : Pool where
  values := #[.nil]
  indices := (∅ : Std.ExtTreeMap ValueKey Nat ValueKey.order).insert .nil 0

def find? (p : Pool) (value : Value) : Option Nat := value.key?.bind (p.indices[·]?)

def push (p : Pool) (value : Value) : Pool :=
  let index := p.values.size
  { values := p.values.push value
    indices :=
      match value.key? with
      | some key => p.indices.insert key index
      | none => p.indices }

/-- The index of a constant, which is added unless it is there. A pool has at most 65536 entries. -/
def add (p : Pool) (value : Value) : Except Failure Nat × Pool :=
  match p.find? value with
  | some index => (.ok index, p)
  | none =>
    if maxConstant < p.values.size then (.error .tooManyConstants, p)
    else (.ok p.values.size, p.push value)

end Pool

end StackCode
