import StackCode.Diagnostic
import StackCode.Machine.Capture

/-!
# Captured variables of a function

They are listed in the order of their first capture, and the place in the list is the index.
-/

namespace StackCode

structure Capture where
  name : String
  source : Place
  mutable : Bool
deriving DecidableEq, Repr

structure CaptureList where
  captures : Array Capture
deriving DecidableEq, Repr

/-- The greatest index that an operand can address. -/
def maxCapture : Nat := 65535

namespace CaptureList

def empty : CaptureList := ⟨#[]⟩

def size (l : CaptureList) : Nat := l.captures.size

/-- The index of the captured variable from a source; it is added unless it is there. -/
def capture (l : CaptureList) (name : String) (source : Place) (mutable : Bool) :
    Except Failure (Nat × CaptureList) :=
  match l.captures.findIdx? (·.source = source) with
  | some index => .ok (index, l)
  | none =>
    if maxCapture < l.size then .error .tooManyUpvalues
    else .ok (l.size, ⟨l.captures.push ⟨name, source, mutable⟩⟩)

def find? (l : CaptureList) (name : String) : Option Nat := l.captures.findIdx? (·.name == name)

def sources (l : CaptureList) : List Place := l.captures.toList.map Capture.source

/-- The bytes of the captured variables in code. -/
def encode (l : CaptureList) : List UInt8 := Place.encodeAll l.sources

end CaptureList

end StackCode
