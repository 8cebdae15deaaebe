import StackCode.Compile.Variable

/-!
# Code for patterns

A pattern is compiled to a test that pushes true or false and binds names as it goes. The subject is
in a slot, so that every check can load it again.

## Design Notes

All checks of a test that fail go to one branch at its end, which pushes false. The steps of the
whole pattern are made first; how far each check is from that branch follows from what comes behind
it.
-/

namespace StackCode

/-- A part of a test. -/
inductive Step where
  | run (instr : Located)
  /-- Goes to the branch that pushes false if the popped value is falsy. -/
  | require (line : Nat)

def Step.size : Step → Nat
  | .run instr => instr.instr.size
  | .require _ => 3

abbrev Steps := Array Step

/-- Some instructions, one behind the other. -/
def Steps.ofCode (code : Code) : Steps := code.map .run

/-- A check that has to hold. -/
def Steps.require (span : Span) : Steps := #[.require span.line]

/-- Where the value that a pattern tests comes from. -/
inductive Subject where
  | slot (slot : Nat)
  /-- An element of a sequence; a negative index counts from the end. -/
  | element (sequence : Nat) (index : Int)
  | entry (map : Nat) (key : Literal)

namespace Compile

def loadSubject (subject : Subject) (span : Span) : Compile Code := do
  match subject with
  | .slot slot => indexed .getLocal slot span
  | .element sequence index =>
    let sequence ← indexed .getLocal sequence span
    let index ← loadInt index span
    return sequence ++ index ++ Code.plain span .subscript
  | .entry map key =>
    let map ← indexed .getLocal map span
    let key ← loadLiteral key span
    return map ++ key ++ Code.plain span .subscript

/-- A slot that holds the value that a pattern tests, and the code that puts it there. -/
def holdSubject (subject : Subject) (span : Span) : Compile (Option (Nat × Code)) := do
  match subject with
  | .slot slot => return some (slot, #[])
  | subject =>
    match ← declareHidden "pattern element" span with
    | none => return none
    | some slot =>
      let value ← loadSubject subject span
      let store ← indexed .setLocal slot span
      return some (slot, value ++ store ++ Code.plain span .pop)

def classCheck (slot : Nat) (fullName : String) (span : Span) : Compile Steps := do
  let value ← indexed .getLocal slot span
  let expected ← getConst fullName span
  return Steps.ofCode (value ++ expected ++ Code.plain span .isA) ++ Steps.require span

/-- Check the length of a sequence: it is exact, or the least one when there is a rest. -/
def lengthCheck (slot count : Nat) (hasRest : Bool) (span : Span) : Compile Steps := do
  let value ← indexed .getLocal slot span
  let expected ← loadInt count span
  let comparison := Code.plain span (.binary (if hasRest then .greaterEqual else .equal))
  return Steps.ofCode (value ++ Code.plain span .length ++ expected ++ comparison) ++
    Steps.require span

def keyCheck (slot : Nat) (key : Literal) (span : Span) : Compile Steps := do
  let value ← indexed .getLocal slot span
  let key ← loadLiteral key span
  return Steps.ofCode (value ++ key ++ Code.plain span .hasKey) ++ Steps.require span

/-- Bind the elements between the leading and the trailing ones. -/
def bindRest (slot leading trailing : Nat) (rest : Option Rest) (mutable : Bool) (span : Span) :
    Compile Code := do
  match rest.bind Rest.binding with
  | none => return #[]
  | some name =>
    if leading < 256 ∧ trailing < 256 then
      let value ← indexed .getLocal slot span
      let cut := Code.one span (.slice (UInt8.ofNat leading) (UInt8.ofNat trailing))
      return value ++ cut ++ (← bindLocal name mutable span)
    else
      fail .tooManyElements span
      return #[]

/-- The class that a sequence pattern asks for. -/
def sequenceClass : SequenceKind → String
  | .list => listName
  | .tuple => tupleName

mutual

def patternSteps (mutable : Bool) : Pattern → Subject → Compile Steps
  | .wildcard _, _ => return #[]
  | .binding span name, subject => do
    let value ← loadSubject subject span
    return Steps.ofCode (value ++ (← bindLocal name mutable span))
  | .literal span value, subject => do
    let found ← loadSubject subject span
    let expected ← loadLiteral value span
    return Steps.ofCode (found ++ expected ++ Code.plain span (.binary .equal)) ++
      Steps.require span
  | .sequence span kind elements rest, subject => do
    match ← holdSubject subject span with
    | none => return #[]
    | some (slot, hold) =>
      let count := elements.length
      let leading := (rest.map fun r => min r.position count).getD count
      let isSequence ← classCheck slot (sequenceClass kind) span
      let hasLength ← lengthCheck slot count rest.isSome span
      let steps := Steps.ofCode hold ++ isSequence ++ hasLength
      let steps ← elementSteps mutable slot leading count 0 steps elements
      let tail ← bindRest slot leading (count - leading) rest mutable span
      return steps ++ Steps.ofCode tail
  | .map span entries, subject => do
    match ← holdSubject subject span with
    | none => return #[]
    | some (slot, hold) =>
      let isMap ← classCheck slot mapName span
      entrySteps mutable slot (Steps.ofCode hold ++ isMap) entries

/-- The steps of the elements of a sequence, from a position on. Trailing elements are counted from
the end. -/
def elementSteps (mutable : Bool) (slot leading count : Nat) :
    Nat → Steps → List Pattern → Compile Steps
  | _, steps, [] => return steps
  | position, steps, element :: rest => do
    let index : Int := if position < leading then position else (position : Int) - count
    let more ← patternSteps mutable element (.element slot index)
    elementSteps mutable slot leading count (position + 1) (steps ++ more) rest

def entrySteps (mutable : Bool) (slot : Nat) : Steps → List (Literal × Pattern) → Compile Steps
  | steps, [] => return steps
  | steps, (key, pattern) :: rest => do
    let hasKey ← keyCheck slot key pattern.span
    let more ← patternSteps mutable pattern (.entry slot key)
    entrySteps mutable slot (steps ++ hasKey ++ more) rest

end

/-- Turn steps into code. `size` is the number of bytes from here to the branch that pushes
false. -/
def resolveSteps (span : Span) : Nat → Code → List Step → Compile Code
  | _, code, [] => return code
  | size, code, .run instr :: rest =>
    resolveSteps span (size - instr.instr.size) (code.push instr) rest
  | size, code, .require line :: rest => do
    let leave ← jump .whenFalse (size - 3) (.point line 0) span
    resolveSteps span (size - 3) (code ++ leave) rest

def Step.canFail : Step → Bool
  | .require _ => true
  | .run _ => false

def patternTest (pattern : Pattern) (slot : Nat) (mutable : Bool) : Compile Code := do
  let span := pattern.span
  let steps ← patternSteps mutable pattern (.slot slot)
  let size := steps.foldl (fun n step => n + step.size) 0
  let checks ← resolveSteps span (size + 4) #[] steps.toList
  if steps.any Step.canFail then
    let skip ← jump .always 1 span span
    return checks ++ Code.plain span .pushTrue ++ skip ++ Code.plain span .pushFalse
  else
    return checks ++ Code.plain span .pushTrue

/-- What a declaration throws when the value does not match. -/
def mismatchMessage (mutable : Bool) : String :=
  if mutable then "assigned value does not match the pattern defined in variable declaration"
  else "assigned value does not match the pattern defined in value declaration"

/-- A declaration that takes a value apart, and throws an error if the value does not match. -/
def patternDeclaration (pattern : Pattern) (mutable : Bool) (span : Span) (value : Compile Code) :
    Compile Code := do
  let value ← value
  match ← declareHidden "pattern subject" span with
  | none => return value ++ Code.plain span .pop
  | some slot =>
    let store ← indexed .setLocal slot span
    let test ← patternTest pattern slot mutable
    let error ← getConst patternErrorName span
    let message ← loadValue (.string (mismatchMessage mutable)) span
    let throw := error ++ message ++ Code.one span (.instantiate 1) ++ Code.plain span .raise
    let matched ← jump .whenTrue throw.byteSize span span
    return value ++ store ++ Code.plain span .pop ++ test ++ matched ++ throw

end Compile

end StackCode
