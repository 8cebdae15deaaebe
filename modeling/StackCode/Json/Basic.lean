import StackCode.Number.Double

/-!
# JSON values

Syntax trees come in as JSON and compiled functions go out as JSON.

## Design Notes

A number is an integer or a double, never both: which of the two a text denotes is decided where the
text is read. A record is an object with its fields by name, or an array with all of them by
position. A variant is a bare tag, or an object whose single key is the tag.
-/

namespace StackCode

inductive Number where
  | int (value : Int)
  | float (value : Double)
deriving DecidableEq, Repr

inductive Json where
  | null
  | bool (value : Bool)
  | number (value : Number)
  | string (text : String)
  | array (items : List Json)
  | object (fields : List (String × Json))
  /-- What is spelled as a value and denotes none: a number beyond the doubles, or a text with half
  a surrogate pair. It may stand where nobody looks at it. -/
  | unreadable
deriving Inhabited

namespace Json

def ofInt (n : Int) : Json := .number (.int n)

def ofNat (n : Nat) : Json := .number (.int n)

def ofOption : Option Json → Json
  | none => .null
  | some j => j

mutual

/-- How deep arrays and objects nest. -/
def depth : Json → Nat
  | .array items => itemsDepth items + 1
  | .object fields => fieldsDepth fields + 1
  | _ => 0

/-- The greatest depth among the items of an array. -/
def itemsDepth : List Json → Nat
  | [] => 0
  | j :: rest => max j.depth (itemsDepth rest)

/-- The greatest depth among the fields of an object. -/
def fieldsDepth : List (String × Json) → Nat
  | [] => 0
  | (_, j) :: rest => max j.depth (fieldsDepth rest)

end

/-! ### Scalars -/

def nat? : Json → Option Nat
  | .number (.int n) => if 0 ≤ n then some n.toNat else none
  | _ => none

def int64? : Json → Option Int64
  | .number (.int n) =>
    if -0x8000000000000000 ≤ n ∧ n < 0x8000000000000000 then some (Int64.ofInt n) else none
  | _ => none

def byte? : Json → Option UInt8
  | .number (.int n) => if 0 ≤ n ∧ n < 256 then some (UInt8.ofNat n.toNat) else none
  | _ => none

/-- A double; an integer is rounded to the nearest one. -/
def double? : Json → Option Double
  | .number (.int n) => Double.ofInt? n
  | .number (.float x) => some x
  | _ => none

def text? : Json → Option String
  | .string s => some s
  | _ => none

def flag? : Json → Option Bool
  | .bool b => some b
  | _ => none

/-! ### Records and variants -/

/-- The field of an object; one that is given twice is refused. -/
def field? (fields : List (String × Json)) (name : String) : Option (Option Json) :=
  match fields.filter (·.1 == name) with
  | [] => some none
  | [(_, j)] => some (some j)
  | _ => none

/-- The fields of a record with the given names, in their order; `none` stands for one that is left
out. Fields with other names are not looked at. An array has all fields by position, save that the
last `defaults` of them may be left out. -/
def record? (names : List String) (defaults : Nat) : Json → Option (List (Option Json))
  | .object fields => names.mapM (field? fields)
  | .array items =>
    if names.length ≤ items.length + defaults ∧ items.length ≤ names.length then
      some (items.map some ++ List.replicate (names.length - items.length) none)
    else none
  | _ => none

/-- The items of an array, each read by `f`. -/
def list? {α : Type} (f : Json → Option α) : Json → Option (List α)
  | .array items => items.mapM f
  | _ => none

/-- A field that has to be there. -/
def required? {α : Type} (f : Json → Option α) : Option Json → Option α
  | none => none
  | some j => f j

/-- A field that may be left out or null. -/
def optional? {α : Type} (f : Json → Option α) : Option Json → Option (Option α)
  | none => some none
  | some .null => some none
  | some j => (f j).map some

/-- A field with a default, which may be left out but not null. -/
def defaulted? {α : Type} (f : Json → Option α) (default : α) : Option Json → Option α
  | none => some default
  | some j => f j

/-- A bare tag: its text, or an object that gives it null. The object opens one level. -/
def tag? (depth : Nat) : Json → Option String
  | .string tag => some tag
  | .object [(tag, .null)] => if 0 < depth then some tag else none
  | _ => none

end Json

end StackCode
