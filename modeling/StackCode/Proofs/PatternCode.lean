import StackCode.Proofs.Emission

/-!
# Code for patterns

A pattern uses no instance variables, so neither its steps nor what they are put together to have
any.
-/

namespace StackCode

namespace Ensures

variable {here : Setting} {nested : List Source} {P : Prop}
    {uses : List IvarUse}

/-! ## Subjects -/

theorem loadSubject (subject : Subject) (span : Span) :
    Silently here P (Compile.loadSubject subject span) := by
  cases subject with
  | slot slot => exact indexedSilent .getLocal slot span rfl
  | element sequence index =>
    exact (indexedSilent .getLocal sequence span rfl).quietBind fun sequence =>
      (loadInt index span).quietBind fun index => pure
  | entry map key =>
    exact (indexedSilent .getLocal map span rfl).quietBind fun map =>
      (loadLiteral key span).quietBind fun key => pure

theorem holdSubject (subject : Subject) (span : Span) (opens : here.declares = true) :
    Ensures here [] [] P (Compile.holdSubject subject span) fun made =>
      ∀ held ∈ made, Silent held.2 := by
  cases subject with
  | slot slot =>
    refine pure fun _ => ?_
    rintro _ ⟨⟩
    rfl
  | element _ _ | entry _ _ =>
    refine (declareHidden _ span opens).quietBind fun slot => ?_
    cases slot with
    | none => exact pure fun given => by simp at given
    | some slot =>
      refine (loadSubject _ span).quietBind fun value => ?_
      refine (indexedSilent .setLocal slot span rfl).quietBind fun store => pure fun given => ?_
      rintro _ ⟨⟩
      simp [given]

/-! ## Steps -/

/-- The use of an instance variable in a step. -/
def ivarOfStep? : Step → Option (Bool × IvarAddress)
  | .run i => i.instr.ivar?
  | .require _ => none

/-- Those in some steps. -/
def ivarsOfSteps (steps : List Step) : List (Bool × IvarAddress) := steps.filterMap ivarOfStep?

/-- There are none. -/
@[simp] abbrev SilentSteps (steps : Steps) : Prop := ivarsOfSteps steps.toList = []

@[simp] theorem ivarsOfSteps_append (a b : List Step) :
    ivarsOfSteps (a ++ b) = ivarsOfSteps a ++ ivarsOfSteps b :=
  List.filterMap_append

@[simp] theorem ivarsOfSteps_ofCode (code : Code) :
    ivarsOfSteps (Steps.ofCode code).toList = ivarsOf code.instrs := by
  simp [ivarsOfSteps, Steps.ofCode, ivarsOf, Code.instrs, List.filterMap_map, Function.comp_def,
    ivarOfStep?]

@[simp] theorem ivarsOfSteps_require (span : Span) :
    ivarsOfSteps (Steps.require span).toList = [] := rfl

theorem classCheck (slot : Nat) (fullName : String) (span : Span) :
    Ensures here [] [] P (Compile.classCheck slot fullName span) SilentSteps :=
  (indexedSilent .getLocal slot span rfl).quietBind fun value =>
    (getConst fullName span).quietBind fun expected => pure

theorem lengthCheck (slot count : Nat) (hasRest : Bool) (span : Span) :
    Ensures here [] [] P (Compile.lengthCheck slot count hasRest span) SilentSteps :=
  (indexedSilent .getLocal slot span rfl).quietBind fun value =>
    (loadInt count span).quietBind fun expected => pure

theorem keyCheck (slot : Nat) (key : Literal) (span : Span) :
    Ensures here [] [] P (Compile.keyCheck slot key span) SilentSteps :=
  (indexedSilent .getLocal slot span rfl).quietBind fun value =>
    (loadLiteral key span).quietBind fun key => pure

theorem bindRest (slot leading trailing : Nat) (rest : Option Rest) (mutable : Bool) (span : Span)
    (opens : here.declares = true) :
    Silently here P (Compile.bindRest slot leading trailing rest mutable span) := by
  unfold Compile.bindRest
  split
  · exact pure fun _ => rfl
  · split
    · refine (indexedSilent .getLocal slot span rfl).quietBind fun value => ?_
      refine (bindLocal _ mutable span opens).quietBind fun store => pure fun given => ?_
      simp [given, Instr.ivar?]
    · exact (fail _ span).quietBind fun _ => pure fun _ => rfl

mutual

theorem patternSteps (opens : here.declares = true) (mutable : Bool) :
    ∀ (pattern : Pattern) (subject : Subject) {P : Prop},
    Ensures here [] [] P (Compile.patternSteps mutable pattern subject) SilentSteps
  | .wildcard _, _, _ => pure fun _ => rfl
  | .binding span name, subject, _ =>
    (loadSubject subject span).quietBind fun value =>
      (bindLocal name mutable span opens).quietBind fun store => pure
  | .literal span value, subject, _ =>
    (loadSubject subject span).quietBind fun found =>
      (loadLiteral value span).quietBind fun expected => pure
  | .sequence span kind elements rest, subject, _ => by
    refine (holdSubject subject span opens).quietBind fun held => ?_
    match held with
    | none => exact pure fun _ => rfl
    | some (slot, hold) =>
      refine (classCheck slot _ span).quietBind fun isSequence => ?_
      refine (lengthCheck slot _ _ span).quietBind fun hasLength => ?_
      refine ((elementSteps opens mutable slot _ _ elements 0 _).pre fun given =>
        ?_).quietBind fun steps => ?_
      · simp [given, given.1.1.2 (slot, hold) rfl]
      exact (bindRest slot _ _ rest mutable span opens).quietBind fun tail => pure
  | .map span entries, subject, _ => by
    refine (holdSubject subject span opens).quietBind fun held => ?_
    match held with
    | none => exact pure fun _ => rfl
    | some (slot, hold) =>
      refine (classCheck slot _ span).quietBind fun isMap =>
        (entrySteps opens mutable slot entries _).pre fun given => ?_
      simp [given, given.1.2 (slot, hold) rfl]

theorem elementSteps (opens : here.declares = true) (mutable : Bool) (slot leading count : Nat) :
    ∀ (elements : List Pattern) (position : Nat) (steps : Steps),
      Ensures here [] [] (SilentSteps steps)
        (Compile.elementSteps mutable slot leading count position steps elements) SilentSteps
  | [], _, _ => pure id
  | element :: rest, position, steps =>
    (patternSteps opens mutable element _).quietBind fun more =>
      (elementSteps opens mutable slot leading count rest (position + 1) _).pre fun given => by
        simp [given]

theorem entrySteps (opens : here.declares = true) (mutable : Bool) (slot : Nat) :
    ∀ (entries : List (Literal × Pattern)) (steps : Steps),
      Ensures here [] [] (SilentSteps steps)
        (Compile.entrySteps mutable slot steps entries) SilentSteps
  | [], _ => pure id
  | (key, pattern) :: rest, steps =>
    (keyCheck slot key pattern.span).quietBind fun hasKey =>
      (patternSteps opens mutable pattern _).quietBind fun more =>
        (entrySteps opens mutable slot rest _).pre fun given => by simp [given]

end

/-! ## Tests -/

/-- The number of bytes of some steps. -/
def stepsSize (steps : List Step) : Nat := (steps.map Step.size).sum

theorem resolveSteps (span : Span) (steps : List Step) (size : Nat) (code : Code) :
    Ensures here [] [] P (Compile.resolveSteps span size code steps) fun whole =>
      ivarsOf whole.instrs = ivarsOf code.instrs ++ ivarsOfSteps steps := by
  induction steps generalizing size code P with
  | nil => exact pure fun _ => (List.append_nil _).symm
  | cons step rest ih =>
    cases step with
    | run i =>
      refine (ih _ _).imp fun given whole made => ?_
      rw [made, Code.instrs_push, ivarsOf_append, List.append_assoc]
      exact congrArg (_ ++ ·) (ivarsOfSteps_append [.run i] rest).symm
    | require line =>
      refine (jump _ _ _ span).quietBind fun leave => (ih _ _).imp fun given whole made => ?_
      rw [made, Code.instrs_append, ivarsOf_append, given.2, List.append_nil]
      rfl

theorem patternTest (pattern : Pattern) (slot : Nat) (mutable : Bool)
    (opens : here.declares = true := by rfl) :
    Silently here P (Compile.patternTest pattern slot mutable) := by
  refine (patternSteps opens mutable pattern _).quietBind fun steps => ?_
  refine (resolveSteps pattern.span steps.toList _ #[]).quietBind fun checks => ?_
  refine branch ?_ pure
  exact (jump _ 1 _ _).quietBind fun skip => pure

theorem patternDeclaration (pattern : Pattern) (mutable : Bool) (span : Span) {value : Compile Code}
    (valuePiece : Ensures here nested [] True value (Piece here uses))
    (opens : here.declares = true := by rfl) :
    Ensures here nested [] P (Compile.patternDeclaration pattern mutable span value)
      (Piece here uses) := by
  refine valuePiece.given.bindQuiet fun value =>
    (declareHidden _ span opens).quietBind fun slot => ?_
  cases slot with
  | none => exact pure fun given => by simpa using given.1.2
  | some slot =>
    refine (indexedSilent .setLocal slot span rfl).quietBind fun store => ?_
    refine (patternTest pattern slot mutable opens).quietBind fun test => ?_
    refine (getConst patternErrorName span).quietBind fun error => ?_
    refine (loadValue rfl span).quietBind fun message => ?_
    refine (jump _ _ span span).quietBind fun matched => pure fun given => ?_
    obtain ⟨⟨⟨⟨⟨⟨⟨-, isValue⟩, -⟩, isStore⟩, isTest⟩, isError⟩, isMessage⟩, isMatched⟩ := given
    simpa [isStore, isTest, isError, isMessage, isMatched, Instr.ivar?] using isValue

end Ensures

end StackCode
