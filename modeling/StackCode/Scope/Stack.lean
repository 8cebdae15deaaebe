import StackCode.Diagnostic

/-!
# Scopes and slots

The local variables of a function lie in numbered slots. Slot 0 is the receiver's. A scope gives its
variables the next free slots, and hands them back when it ends.

## Design Notes

Scopes are listed innermost first and their variables latest first, so that the variable that a name
denotes is the first one found. `watermark` is the next free slot.
-/

namespace StackCode

structure Binding where
  name : String
  slot : Nat
  initialized : Bool
  /-- Whether it is a `var`. -/
  mutable : Bool
  captured : Bool
  /-- Whether it holds an intermediate value, and is not found by name. -/
  hidden : Bool
deriving DecidableEq, Repr

/-- Whether a variable is found by a name. -/
def Binding.answersTo (b : Binding) (name : String) : Bool := !b.hidden && b.name == name

structure Scope where
  /-- Its variables, latest first. -/
  bindings : List Binding
  /-- The first slot that is handed back when it ends. -/
  base : Nat
deriving DecidableEq, Repr

/-- What a scope hands back. -/
structure Released where
  start : Nat
  stop : Nat
  /-- The slots that closures captured, in the order of declaration. -/
  captured : List Nat
deriving DecidableEq, Repr

structure ScopeStack where
  /-- The open scopes, innermost first. -/
  scopes : List Scope
  /-- The next free slot. -/
  watermark : Nat
  /-- The greatest watermark so far. -/
  highWater : Nat
deriving DecidableEq, Repr

/-- The greatest slot that an operand can address. -/
def maxSlot : Nat := 65535

namespace ScopeStack

/-- The scopes of a function at its start: one without variables. -/
def new : ScopeStack where
  scopes := [⟨[], 1⟩]
  watermark := 1
  highWater := 1

def enter (s : ScopeStack) : ScopeStack := { s with scopes := ⟨[], s.watermark⟩ :: s.scopes }

def exit (s : ScopeStack) : Released × ScopeStack :=
  match s.scopes with
  | [] => (⟨s.watermark, s.watermark, []⟩, s)
  | scope :: outer =>
    let captured := (scope.bindings.filter Binding.captured).map Binding.slot
    (⟨scope.base, s.watermark, captured.reverse⟩, { s with scopes := outer, watermark :=
      scope.base })

/-- Give a variable the next free slot. Where no scope is open, one is opened for it. -/
def allocate (s : ScopeStack) (name : String) (mutable hidden : Bool) :
    Except Failure (Nat × ScopeStack) :=
  let slot := s.watermark
  if maxSlot < slot then .error .tooManyLocals
  else
    let binding : Binding := ⟨name, slot, hidden, mutable, false, hidden⟩
    let scopes :=
      match s.scopes with
      | [] => [⟨[binding], slot + 1⟩]
      | scope :: outer => { scope with bindings := binding :: scope.bindings } :: outer
    .ok (slot, { scopes := scopes, watermark := slot + 1, highWater := max s.highWater (slot + 1) })

def declare (s : ScopeStack) (name : String) (mutable : Bool) : Except Failure (Nat × ScopeStack) :=
  match s.scopes with
  | [] => s.allocate name mutable false
  | scope :: _ =>
    if scope.bindings.any (·.answersTo name) then .error (.redeclaredLocal name)
    else s.allocate name mutable false

/-- A slot for an intermediate value. -/
def declareHidden (s : ScopeStack) (purpose : String) : Except Failure (Nat × ScopeStack) :=
  s.allocate purpose false true

def lookup? (s : ScopeStack) (name : String) : Option Binding :=
  s.scopes.findSome? fun scope => scope.bindings.find? (·.answersTo name)

/-- Change the first variable with a slot. -/
def updateBinding (slot : Nat) (f : Binding → Binding) : List Binding → Option (List Binding)
  | [] => none
  | b :: rest =>
    if b.slot = slot then some (f b :: rest) else (updateBinding slot f rest).map (b :: ·)

/-- Change the innermost variable with a slot. -/
def updateScopes (slot : Nat) (f : Binding → Binding) : List Scope → List Scope
  | [] => []
  | scope :: outer =>
    match updateBinding slot f scope.bindings with
    | some bindings => { scope with bindings := bindings } :: outer
    | none => scope :: updateScopes slot f outer

def update (s : ScopeStack) (slot : Nat) (f : Binding → Binding) : ScopeStack :=
  { s with scopes := updateScopes slot f s.scopes }

/-- Note that the variable with a slot has a value. -/
def markInitialized (s : ScopeStack) (slot : Nat) : ScopeStack :=
  s.update slot fun b => { b with initialized := true }

/-- Note that a closure captured the variable with a slot. -/
def markCaptured (s : ScopeStack) (slot : Nat) : ScopeStack :=
  s.update slot fun b => { b with captured := true }

/-- The greatest number of slots that were in use at once, without that of the receiver. -/
def localCount (s : ScopeStack) : Nat := s.highWater - 1

end ScopeStack

end StackCode
