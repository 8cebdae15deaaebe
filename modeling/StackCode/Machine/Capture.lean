import StackCode.Machine.Family

/-!
# Places of variables, and captured variables in code

A function keeps a variable in a slot of its own, or among those that it captured. A closure
instruction ends with the places, in the enclosing function, of the variables that the closure
captures: for each a byte of flags and an index, and a byte that ends the list.
-/

namespace StackCode

/-- Where a function keeps a variable. -/
inductive Place where
  | local (slot : Nat)
  /-- A variable that it captured, by its position among them. -/
  | upvalue (index : Nat)
deriving DecidableEq, Repr

namespace Place

/-- Ends the list of captured variables. -/
def terminator : UInt8 := 0xFF

/-- Marks a slot. -/
def localFlag : UInt8 := 0x01

/-- Marks an index of 16 bits. -/
def longFlag : UInt8 := 0x02

/-- The flag that tells the two kinds of places apart. -/
def flag : Place → UInt8
  | .local _ => localFlag
  | .upvalue _ => 0

def index : Place → Nat
  | .local slot => slot
  | .upvalue index => index

/-- The bytes of one place. Of an index beyond 16 bits the low 16 are written. -/
def bytes (c : Place) : List UInt8 :=
  if c.index < 256 then [c.flag, UInt8.ofNat c.index]
  else (c.flag ||| longFlag) :: wordBytes (UInt16.ofNat c.index)

def size (c : Place) : Nat := if c.index < 256 then 2 else 3

def sizeAll (cs : List Place) : Nat := cs.foldr (fun c n => c.size + n) 0

/-- The bytes of a list of places, with its end. -/
def encodeAll (cs : List Place) : List UInt8 := cs.flatMap bytes ++ [terminator]

@[simp] theorem length_bytes (c : Place) : c.bytes.length = c.size := by
  unfold bytes size
  split <;> rfl

theorem length_flatMap_bytes (cs : List Place) : (cs.flatMap bytes).length = sizeAll cs := by
  induction cs with
  | nil => rfl
  | cons c rest ih => simpa [sizeAll] using ih

@[simp] theorem length_encodeAll (cs : List Place) : (encodeAll cs).length = sizeAll cs + 1 := by
  rw [encodeAll, List.length_append, length_flatMap_bytes, List.length_singleton]

end Place

end StackCode
