import StackCode.Function.LineTable
import StackCode.Number.Shortest
import StackCode.NameTable
import StackCode.Text.Quoted

/-!
# Compiled functions

Functions that are nested in another one are entries of its pool of constants.
-/

namespace StackCode

mutual

/-- An entry of a pool. -/
inductive Value where
  | nil
  | int (value : Int64)
  | float (value : Double)
  | string (text : String)
  | symbol (name : String)
  | ivars (table : NameTable)
  | function (f : CompiledFunction)

/-- A function of the stack machine. -/
structure CompiledFunction where
  name : String
  code : Array UInt8
  location : Location
  lines : LineTable
  constants : List Value
  required : Nat
  optional : Nat
  upvalues : Nat

end

/-- What makes two entries of a pool the same. Doubles are the same when their bits are. -/
inductive ValueKey where
  | nil
  | int (value : Int)
  | float (bits : Nat)
  | string (text : String)
  | symbol (name : String)
deriving DecidableEq, Repr

namespace ValueKey

def kind : ValueKey → Nat
  | .nil => 0
  | .int _ => 1
  | .float _ => 2
  | .string _ => 3
  | .symbol _ => 4

def number : ValueKey → Int
  | .int value => value
  | .float bits => bits
  | _ => 0

def text : ValueKey → String
  | .string text => text
  | .symbol name => name
  | _ => ""

/-- Keys by their kind, then by their content. -/
def order : ValueKey → ValueKey → Ordering :=
  compareLex (compareOn kind) (compareLex (compareOn number) (compareOn text))

instance : Std.TransCmp order := inferInstanceAs (Std.TransCmp (compareLex _ (compareLex _ _)))

instance : Std.LawfulEqCmp order where
  eq_of_compare {a b} h := by
    simp only [order, compareLex, compareOn, Ordering.then_eq_eq, Std.compare_eq_iff_eq] at h
    obtain ⟨hk, hn, ht⟩ := h
    cases a <;> cases b <;> grind [kind, number, text]

end ValueKey

namespace Value

/-- The key of an entry; functions and tables have none. -/
def key? : Value → Option ValueKey
  | .nil => some .nil
  | .int n => some (.int n.toInt)
  | .float x => some (.float x.toBits.toNat)
  | .string s => some (.string s)
  | .symbol s => some (.symbol s)
  | .ivars _ => none
  | .function _ => none

def symbol? : Value → Option String
  | .symbol name => some name
  | _ => none

def function? : Value → Option CompiledFunction
  | .function f => some f
  | _ => none

def text : Value → String
  | .nil => "nil"
  | .int n => toString n.toInt
  | .float x => x.text listedStyle
  | .string s => quoted s
  | .symbol s => ":" ++ s
  | .ivars table => table.text
  | .function f => "<function: " ++ f.name ++ ">"

end Value

namespace CompiledFunction

mutual

/-- A function and all that are nested in it, each before those in its pool. -/
def walk : CompiledFunction → List CompiledFunction
  | ⟨name, code, location, lines, constants, required, optional, upvalues⟩ =>
    ⟨name, code, location, lines, constants, required, optional, upvalues⟩ :: walkPool constants

/-- The functions of a pool, each with those that are nested in it. -/
def walkPool : List Value → List CompiledFunction
  | [] => []
  | .function f :: rest => f.walk ++ walkPool rest
  | .nil :: rest => walkPool rest
  | .int _ :: rest => walkPool rest
  | .float _ :: rest => walkPool rest
  | .string _ :: rest => walkPool rest
  | .symbol _ :: rest => walkPool rest
  | .ivars _ :: rest => walkPool rest

end

def find? (f : CompiledFunction) (name : String) : Option CompiledFunction :=
  f.walk.find? (·.name == name)

end CompiledFunction

end StackCode
