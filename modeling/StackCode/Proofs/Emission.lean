import StackCode.Proofs.Ensures

/-!
# Pieces of code that compilation makes

For each step that makes code, which instance variables the code uses. Most make code without any.
The steps for control flow take pieces and make a piece, for the uses of all parts. The steps
for instance variables make the instructions that use them.
-/

namespace StackCode

namespace Ensures

variable {α β : Type} {here : Setting}
  {nested nested' nested'' : List Source} {members : List Definition} {P : Prop}
variable (count : Nat) (frame : Frame) {source : Source} {f : CompiledFunction} (kind : JumpKind)
  (place : Place) {condition body value : Compile Code} (operand : Option Compile.IvarOperand)
  (site : Site) (name : String) (span : Span) (s : CompileState)

/-! ## Values -/

theorem indexed (family : Family) (index : Nat) (span : Span) :
    Ensures here [] [] P (Compile.indexed family index span) fun code =>
      ∃ i : UInt16, code = .one span (.indexed family i) ∧ i.toNat = index := by
  unfold Compile.indexed
  split
  · rename_i fits
    exact pure fun _ => ⟨UInt16.ofNat index, rfl, UInt16.toNat_ofNat_of_lt' fits⟩
  · exact (fail _ _).quietBind fun _ => pure fun never => never.2.elim

theorem indexedSilent (family : Family) (index : Nat) (span : Span)
    (slotless : (Instr.indexed family 0).ivar? = none) :
    Silently here P (Compile.indexed family index span) := by
  refine (indexed family index span).imp fun _ code made => ?_
  obtain ⟨i, rfl, -⟩ := made
  cases family <;> first | rfl | cases slotless

/-- Code that pushes a constant. -/
def Loaded (constants : List Value) (value : Value) (code : Code) : Prop :=
  ∃ i : Instr, code.instrs = [i] ∧ i.Loads constants value

theorem Loaded.silent {constants : List Value} {value : Value} {code : Code}
    (loaded : Loaded constants value code) :
    Silent code := by
  obtain ⟨i, single, loads⟩ := loaded
  simp [single, loads.ivar?]

theorem loads {value : Value} (noFunction : value.function? = none) (span : Span) :
    Ensures here [] [] P (Compile.loadValue value span) (Loaded here.constants value) :=
  (addConstant noFunction span).quietBind fun _ => pure fun given => ⟨_, rfl, _, rfl, given.2⟩

theorem loadValue {value : Value} (noFunction : value.function? = none) (span : Span) :
    Silently here P (Compile.loadValue value span) :=
  (loads noFunction span).imp fun _ _ => Loaded.silent

theorem loadsFunction (matched : P → Matches here.unit source f) :
    Ensures here [source] [] P (Compile.loadValue (.function f) span)
      (Loaded here.constants (.function f)) :=
  (addFunction span matched).bindQuiet fun _ => pure fun given => ⟨_, rfl, _, rfl, given.2⟩

theorem loadFunction (matched : P → Matches here.unit source f) :
    Ensures here [source] [] P (Compile.loadValue (.function f) span) Silent :=
  (loadsFunction span matched).imp fun _ _ => Loaded.silent

theorem loadSymbol : Silently here P (Compile.loadSymbol name span) :=
  loadValue rfl span

theorem getConst (fullName : String) (span : Span) :
    Silently here P (Compile.getConst fullName span) :=
  (addConstant rfl span).quietBind fun _ => pure fun _ => rfl

theorem loadInt (value : Int) (span : Span) :
    Silently here P (Compile.loadInt value span) :=
  branch (pure fun _ => rfl) (loadValue rfl span)

theorem loadLiteral (value : Literal) (span : Span) :
    Silently here P (Compile.loadLiteral value span) := by
  cases value with
  | nil => exact pure fun _ => rfl
  | bool value => cases value <;> exact pure fun _ => rfl
  | int n => exact loadInt _ span
  | float x => exact loadValue rfl span
  | string s => exact loadValue rfl span
  | symbol s => exact loadSymbol _ span

theorem argumentCount : Ensures here [] [] P (Compile.argumentCount count span) fun _ => True :=
  branch (pure fun _ => trivial) ((fail _ _).quietBind fun _ => pure fun _ => trivial)

theorem send (kind : CallKind) (name : String) (count : Nat) (span : Span) :
    Silently here P (Compile.send kind name count span) :=
  (addConstant rfl span).quietBind fun _ => (argumentCount count span).quietBind fun _ =>
    pure fun _ => rfl

/-! ## Scopes -/

theorem foldCode {γ : Type} {step : γ → Compile Code} {Q : γ → Code → Prop}
    {R : List γ → Code → Prop}
    (start : R [] #[])
    (next : ∀ done item code more, R done code → Q item more → R (done ++ [item]) (code ++ more))
    (items : List γ) (each : ∀ item P, Ensures here [] [] P (step item) (Q item)) :
    Ensures here [] [] P (items.foldlM (fun code item => return code ++ (← step item)) #[])
      (R items) := by
  have fold : ∀ (items done : List γ) (code : Code) (P : Prop), Ensures here [] [] (P ∧ R done code)
      (items.foldlM (fun code item => return code ++ (← step item)) code) (R (done ++ items)) := by
    intro items
    induction items with
    | nil => exact fun done code P => pure fun given => by simpa using given.2
    | cons item rest ih =>
      intro done code P
      rw [List.foldlM_cons, List.append_cons]
      refine quietBind (Q := R (done ++ [item])) ?_ fun code => ih _ code _
      exact (each item _).quietBind fun more => pure fun given => next _ _ _ _ given.1.2 given.2
  exact (fold items [] #[] P).pre fun given => ⟨given, start⟩

theorem foldSilent {γ : Type} {step : γ → Compile Code} (items : List γ)
    (each : ∀ item P, Silently here P (step item)) :
    Silently here P (items.foldlM (fun code item => return code ++ (← step item)) #[]) :=
  foldCode (Q := fun _ => Silent) (R := fun _ => Silent) rfl
    (fun _ _ code more done isMore => by simp [done, isMore]) items each

theorem closeSlots (slots : List Nat) : Silently here P (Compile.closeSlots span slots) :=
  foldSilent slots fun slot _ => indexedSilent .closeUpvalue slot span rfl

theorem withScope {Q : α → Prop} {body : Compile α} (span : Span)
    (ensures : Ensures { here with declares := true } nested members True body Q) :
    Ensures here nested members P (Compile.withScope span body) fun made =>
      Q made.1 ∧ Silent made.2 where
  moves s := (ensures.moves s.entered).inside
    ((closeSlots span _ : Silently here True _).moves _)
  holds _ s clean := by
    have closing := (closeSlots span (body s.entered).2.current.scopes.exit.1.captured :
      Silently here True _)
    have moves := closing.moves (body s.entered).2.exited
    have inner : Moves true s.entered (body s.entered).2 := ensures.moves _
    obtain ⟨adds, made⟩ := ensures.holds trivial s.entered ⟨clean.ivars, ⟨clean.indexed.current,
      clean.indexed.members⟩, moves.pool.values.trans clean.constants,
      fun failed => clean.issues (moves.failed failed)⟩
    have indexed := inner.indexed ⟨clean.indexed.current, clean.indexed.members⟩
    obtain ⟨closed, silent⟩ := closing.holds trivial (body s.entered).2.exited
      ⟨inner.ivars.trans clean.ivars, ⟨indexed.current, indexed.members⟩, clean.constants,
        clean.issues⟩
    have both : Adds here.unit (nested ++ []) (members ++ []) s.entered _ :=
      adds.trans ⟨closed.functions_eq, closed.members_eq, closed.definitions⟩ moves.members
    rw [List.append_nil, List.append_nil] at both
    exact ⟨⟨both.functions_eq, both.members_eq, both.definitions⟩, made, silent⟩

variable {uses uses' uses'' : List IvarUse}

theorem inScope (ensures : Ensures { here with declares := true } nested members True body
      (Piece here uses)) :
    Ensures here nested members P (Compile.inScope span body) (Piece here uses) := by
  refine (withScope span ensures).bindQuiet fun made => pure fun given => ?_
  obtain ⟨-, piece, silent⟩ := given
  simpa [silent] using piece

/-! ## Control flow -/

theorem jump (distance : Nat) (span failureSpan : Span) :
    Silently here P (Compile.jump kind distance span failureSpan) :=
  branch (pure fun _ => rfl) ((fail _ _).quietBind fun _ => pure fun _ => rfl)

theorem shortCircuit {left right : Compile Code}
    (leftPiece : Ensures here nested [] True left (Piece here uses))
    (rightPiece : Ensures here nested' [] True right (Piece here uses')) :
    Ensures here (nested ++ nested') [] P
      (Compile.shortCircuit kind span left right) (Piece here (uses ++ uses')) := by
  refine leftPiece.given.bind fun left => rightPiece.given.bindQuiet fun right => ?_
  refine (jump kind _ span span).quietBind fun skip => pure fun given => ?_
  simpa [given.2] using given.1.1.2.append given.1.2

theorem conditional {thenBranch elseBranch : Compile Code}
    (conditionPiece : Ensures here nested [] True condition (Piece here uses))
    (thenPiece : Ensures here nested' [] True thenBranch (Piece here uses'))
    (elsePiece : Ensures here nested'' [] True elseBranch (Piece here uses'')) :
    Ensures here (nested ++ (nested' ++ nested'')) [] P
      (Compile.conditional span condition thenBranch elseBranch)
        (Piece here (uses ++ (uses' ++ uses''))) := by
  refine conditionPiece.given.bind fun condition => thenPiece.given.bind fun thenBranch => ?_
  refine (jump _ _ span span).quietBind fun otherwise => ?_
  refine elsePiece.given.bindQuiet fun elseBranch => ?_
  refine (jump _ _ span span).quietBind fun done => pure fun given => ?_
  obtain ⟨⟨⟨⟨⟨-, isCondition⟩, isThen⟩, isOtherwise⟩, isElse⟩, isDone⟩ := given
  simpa [isOtherwise, isDone] using isCondition.append (isThen.append isElse)

theorem loop (conditionPiece : Ensures here nested [] True condition (Piece here uses))
    (bodyPiece : Ensures here nested' [] True body (Piece here uses')) :
    Ensures here (nested ++ nested') [] P
      (Compile.loop span condition body) (Piece here (uses ++ uses')) := by
  refine conditionPiece.given.bind fun condition => bodyPiece.given.bindQuiet fun body => ?_
  refine (jump .back _ span span).quietBind fun back => ?_
  refine (jump _ _ span span).quietBind fun leave => pure fun given => ?_
  simpa [given.1.2, given.2] using given.1.1.1.2.append given.1.1.2

/-! ## Switches -/

theorem arm {test : Compile Code} (testSilent : Silently { here with declares := true } True test)
    (bodyPiece : Ensures { here with declares := true } nested [] True body (Piece here uses)) :
    Ensures here nested [] P (Compile.arm span test body) fun arm =>
      Piece here uses arm.code := by
  have both : Ensures { here with declares := true } nested [] True (do
      let test ← test
      let body ← body
      return (test, body)) fun made => Silent made.1 ∧ Piece here uses made.2 :=
    testSilent.quietBind fun test => bodyPiece.given.bindQuiet fun body =>
      pure fun given => ⟨given.1.2, given.2⟩
  refine (withScope span both).bindQuiet fun ⟨⟨test, body⟩, ending⟩ => ?_
  refine (jump _ _ span span).quietBind fun next => pure fun given => ?_
  obtain ⟨⟨-, ⟨isTest, isBody⟩, isEnding⟩, isNext⟩ := given
  simpa [isTest, isEnding, isNext] using isBody

/-- The uses of instance variables in some arms. -/
def ivarsOfArms (arms : List Compile.Arm) : List (Bool × IvarAddress) :=
  arms.flatMap fun arm => ivarsOf arm.code.instrs

/-- The number of bytes of arms with their jumps, and of the last branch. -/
def switchSize (arms : List Compile.Arm) (elseBranch : Code) : Nat :=
  arms.foldr (fun arm n => arm.code.byteSize + 3 + n) elseBranch.byteSize

theorem joinArms (elseBranch : Code) (arms : List Compile.Arm) (size : Nat) (code : Code) :
    Ensures here [] [] P (Compile.joinArms span elseBranch size code arms) fun whole =>
      ivarsOf whole.instrs =
        ivarsOf code.instrs ++ (ivarsOfArms arms ++ ivarsOf elseBranch.instrs) := by
  induction arms generalizing size code P with
  | nil => exact pure fun _ => by simp [ivarsOfArms]
  | cons arm rest ih =>
    refine (jump _ _ arm.span span).quietBind fun leave => (ih _ _).imp fun given whole made => ?_
    simp [made, given.2, ivarsOfArms]

theorem switch (arms : List Compile.Arm) (elseBranch : Code) :
    Ensures here [] [] P (Compile.switch span arms elseBranch) fun whole =>
      ivarsOf whole.instrs = ivarsOfArms arms ++ ivarsOf elseBranch.instrs :=
  joinArms span elseBranch arms _ #[]

/-! ## Variables -/

theorem capture_moves (declares : Bool) (outer : Variable) :
    frame.Moves declares (frame.capture name outer).2 ∧
      (frame.capture name outer).2.pool = frame.pool := by
  unfold Frame.capture
  split
  · rename_i captures captured
    refine ⟨{ Frame.Moves.refl declares frame with captures := ?_ }, rfl⟩
    unfold CaptureList.capture at captured
    split at captured
    · cases captured
      exact List.prefix_rfl
    · split at captured
      · cases captured
      · cases captured
        exact Array.toList_push ▸ List.prefix_append _ _
  · exact ⟨.refl _ _, rfl⟩

theorem findUpvalue_moves (declares : Bool) (frame : Frame) (outer : List Frame) :
    (frame.Moves declares (findUpvalue name frame outer).2.1 ∧
      (findUpvalue name frame outer).2.1.pool = frame.pool) ∧
        Outside frame.isClosure outer (findUpvalue name frame outer).2.2 := by
  induction outer generalizing frame declares with
  | nil => exact ⟨⟨.refl _ _, rfl⟩, .same _ _⟩
  | cons parent outer ih =>
    unfold findUpvalue
    split
    · rename_i closure
      rw [closure]
      split
      · exact ⟨capture_moves frame name declares _,
          .through { Frame.Moves.refl false parent with scopes := .markCaptured _ _ } rfl
            (.same _ _)⟩
      -- The variable is further out, so the parent captures it first.
      · obtain ⟨⟨moves, pool⟩, outside⟩ := ih false parent
        split
        · rename_i found
          rw [found] at moves pool outside
          exact ⟨capture_moves frame name declares _, .through moves pool outside⟩
        · rename_i found
          rw [found] at moves pool outside
          exact ⟨⟨.refl _ _, rfl⟩, .through moves pool outside⟩
    · exact ⟨⟨.refl _ _, rfl⟩, .same _ _⟩

/-- The state with a name captured from the functions around the current one, if it is one of
theirs. -/
def withCaptured (name : String) (s : CompileState) : CompileState :=
  { s with
    current := (findUpvalue name s.current s.enclosing).2.1
    enclosing := (findUpvalue name s.current s.enclosing).2.2 }

theorem resolveVariable_run :
    Compile.resolveVariable name span s =
      match s.current.scopes.lookup? name with
      | some b => (some (.ofBinding b), s)
      | none =>
        match (findUpvalue name s.current s.enclosing).1 with
        | .ok v => (v, withCaptured name s)
        | .error failure => (none,
          { withCaptured name s with issues := s.issues.push (.failure failure span) }) := by
  have read : (get : Compile CompileState) s = (s, s) := rfl
  rw [Compile.resolveVariable, run_bind read]
  cases s.current.scopes.lookup? name with
  | some b => rfl
  | none =>
    unfold withCaptured
    generalize findUpvalue name s.current s.enclosing = result
    obtain ⟨found, current, enclosing⟩ := result
    cases found <;> rfl

theorem resolveVariable_moves {declares : Bool} :
    Moves declares s (Compile.resolveVariable name span s).2 := by
  obtain ⟨⟨moves, -⟩, outside⟩ := findUpvalue_moves name declares s.current s.enclosing
  have captured : Moves declares s (withCaptured name s) :=
    { moves, Moves.refl s with enclosing := outside }
  rw [resolveVariable_run]
  split
  · exact .refl s
  · split
    · exact captured
    · exact captured.trans (report_moves _ _)

theorem resolveVariable :
    Ensures here [] [] P (Compile.resolveVariable name span) fun _ => True := by
  refine ⟨fun s => resolveVariable_moves name span s, fun _ s _ => ⟨?_, trivial⟩⟩
  have functions := congrArg Pool.functions (findUpvalue_moves name true s.current s.enclosing).1.2
  rw [resolveVariable_run]
  split
  · exact .of_eq rfl rfl
  · split <;> exact .of_eq functions rfl

theorem getPlace : Silently here P (Compile.getPlace place span) := by
  cases place with
  | «local» slot => exact indexedSilent .getLocal slot span rfl
  | upvalue index => exact indexedSilent .getUpvalue index span rfl

theorem setPlace : Silently here P (Compile.setPlace place span) := by
  cases place with
  | «local» slot =>
    refine (indexedSilent .setLocal slot span rfl).quietBind fun code => ?_
    exact (markInitialized slot).quietBind fun _ => pure fun given => given.1.2
  | upvalue index => exact indexedSilent .setUpvalue index span rfl

theorem getVariable : Silently here P (Compile.getVariable name span) := by
  refine (resolveVariable name span).quietBind fun v => ?_
  cases v with
  | some v => exact failIf (getPlace v.place span)
  | none => exact (fail _ span).quietBind fun _ => pure fun never => never.2.elim

theorem assignVariable (operator : Option BinaryOp) (span : Span)
    (valuePiece : Ensures here nested [] True value (Piece here uses)) :
    Ensures here nested [] P (Compile.assignVariable name operator span value)
      (Piece here uses) := by
  refine (resolveVariable name span).quietBind fun v => ?_
  cases v with
  | none => exact (fail _ span).quietBind fun _ => valuePiece.given
  | some v =>
    refine failIf ?_
    cases operator with
    | none =>
      refine valuePiece.given.bindQuiet fun value => (setPlace v.place span).quietBind fun store =>
        ?_
      exact pure fun given => by simpa [given.2] using given.1.2
    | some op =>
      refine failIf ((getPlace v.place span).quietBind fun old => valuePiece.given.bindQuiet
        fun value => ?_)
      refine (setPlace v.place span).quietBind fun store => pure fun given => ?_
      obtain ⟨⟨⟨-, isOld⟩, isValue⟩, isStore⟩ := given
      simpa [isOld, isStore] using isValue

theorem bindLocal (mutable : Bool) (span : Span) (opens : here.declares = true := by rfl) :
    Silently here P (Compile.bindLocal name mutable span) := by
  refine (declareLocal name mutable span opens).quietBind fun slot => ?_
  cases slot with
  | none => exact pure fun _ => rfl
  | some slot =>
    exact (setPlace (.local slot) span).quietBind fun store => pure

theorem getPath (path : Path) (span : Span) : Silently here P (Compile.getPath site path span) := by
  refine get_bind fun s => ?_
  split
  · exact getConst _ span
  · exact (fail _ span).quietBind fun _ => pure fun never => never.2.elim

/-! ## Instance variables -/

/-- The address that an operand is for. -/
def addressOf : Compile.IvarOperand → IvarAddress
  | .slot index => .slot index
  | .name index => .name index.toNat

/-- An operand that reaches an instance variable. -/
def Found (here : Setting) (name : String) (operand : Option Compile.IvarOperand) : Prop :=
  ∃ found, operand = some found ∧
    ∀ writes, here.unit.Reaches here.constants here.ivars ⟨name, writes⟩ (writes, addressOf found)

variable {ivars : IvarAccess} {pool : List Value} {declares : Bool}

theorem ivarOperand :
    Ensures ⟨site.unit, ivars, pool, declares⟩ [] [] P (Compile.ivarOperand site name span)
      (Found ⟨site.unit, ivars, pool, declares⟩ name) := by
  refine ivars_bind (Q := fun access => Found ⟨site.unit, access, pool, declares⟩ name) fun s => ?_
  generalize s.current.ivars = access
  cases access with
  | fixed fullName singleton =>
    dsimp only
    split
    · rename_i slot found
      exact pure fun _ => ⟨.slot slot, rfl, fun _ => ⟨rfl, found⟩⟩
    · exact (fail _ span).quietBind fun _ => pure fun never => never.2.elim
  | byName fullName =>
    dsimp only
    split
    · rename_i known
      exact (addConstant rfl span).quietBind fun index => pure fun given =>
        ⟨.name index, rfl, fun _ => ⟨rfl, known, given.2⟩⟩
    · exact (fail _ span).quietBind fun _ => pure fun never => never.2.elim
  | forbidden => exact (fail _ span).quietBind fun _ => pure fun never => never.2.elim

theorem useOperand {read : Option Compile.IvarOperand → Span → Compile Code} {writes : Bool}
    (made : ∀ found P, Ensures here [] [] P (read (some found) span) fun code =>
      ivarsOf code.instrs = [(writes, addressOf found)])
    (none : Ensures here [] [] P (read none span) fun _ => True) :
    Ensures here [] [] (P ∧ Found here name operand) (read operand span)
      (Piece here [⟨name, writes⟩]) := by
  cases operand with
  | none => exact (none.pre And.left).absurd (by rintro ⟨-, _, ⟨⟩, -⟩)
  | some found =>
    refine (made found _).imp fun given code isMade => ?_
    obtain ⟨-, _, ⟨⟩, reaches⟩ := given
    rw [Piece, isMade]
    exact .cons (reaches writes) .nil

theorem getIvarOperand :
    Ensures here [] [] (P ∧ Found here name operand) (Compile.getIvarOperand operand span)
      (Piece here [⟨name, false⟩]) := by
  refine useOperand operand name span (fun found _ => ?_) (pure fun _ => trivial)
  cases found with
  | slot index =>
    refine (indexed .getIvar index span).imp fun _ code made => ?_
    obtain ⟨i, rfl, rfl⟩ := made
    rfl
  | name index => exact pure fun _ => rfl

theorem setIvarOperand :
    Ensures here [] [] (P ∧ Found here name operand) (Compile.setIvarOperand operand span)
      (Piece here [⟨name, true⟩]) := by
  refine useOperand operand name span (fun found _ => ?_) (pure fun _ => trivial)
  cases found with
  | slot index =>
    refine (indexed .setIvar index span).imp fun _ code made => ?_
    obtain ⟨i, rfl, rfl⟩ := made
    rfl
  | name index => exact pure fun _ => rfl

theorem getIvar :
    Ensures ⟨site.unit, ivars, pool, declares⟩ [] [] P (Compile.getIvar site name span)
      (Piece ⟨site.unit, ivars, pool, declares⟩ [⟨name, false⟩]) :=
  (ivarOperand site name span).quietBind fun operand => getIvarOperand operand name span

theorem assignIvar (valuePiece : Ensures ⟨site.unit, ivars, pool, declares⟩ nested [] True value
      (Piece ⟨site.unit, ivars, pool, declares⟩ uses)) :
    Ensures ⟨site.unit, ivars, pool, declares⟩ nested [] P
      (Compile.assignIvar site name none span value)
      (Piece ⟨site.unit, ivars, pool, declares⟩ (uses ++ [⟨name, true⟩])) := by
  refine (ivarOperand site name span).quietBind fun operand =>
    valuePiece.given.bindQuiet fun value => ?_
  refine ((setIvarOperand operand name span).pre fun given =>
    ⟨trivial, given.1.2⟩).quietBind fun store => ?_
  exact pure fun given => by simpa using given.1.2.append given.2

theorem assignIvarCompound (op : BinaryOp) (span : Span)
    (valuePiece : Ensures ⟨site.unit, ivars, pool, declares⟩ nested [] True value
      (Piece ⟨site.unit, ivars, pool, declares⟩ uses)) :
    Ensures ⟨site.unit, ivars, pool, declares⟩ nested [] P
      (Compile.assignIvar site name (some op) span value)
      (Piece ⟨site.unit, ivars, pool, declares⟩ ([⟨name, false⟩] ++ uses ++ [⟨name, true⟩])) := by
  refine (ivarOperand site name span).quietBind fun operand => ?_
  refine (getIvarOperand operand name span).quietBind fun old =>
    valuePiece.given.bindQuiet fun value => ?_
  rw [pure_bind]
  refine ((setIvarOperand operand name span).pre fun given =>
    ⟨trivial, given.1.1.2⟩).quietBind fun store => ?_
  refine pure fun given => ?_
  obtain ⟨⟨⟨-, isOld⟩, isValue⟩, isStore⟩ := given
  simpa using (isOld.append isValue).append isStore

end Ensures

end StackCode
