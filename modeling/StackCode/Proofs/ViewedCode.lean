import StackCode.Proofs.Emission
import StackCode.Proofs.ParameterSlots
import StackCode.Proofs.ViewedDeclarations

/-!
# Compilation under a view

Every step of a compilation commutes with a view: to compile the tree that a view shows, from the
state that it shows, makes the code that it shows and ends in the state that it shows. This is one
equation for each function of the compiler, and each is put together as the function is. What a step
reports about illegal declarations is put together with it.
-/

namespace StackCode

open OrderedMap

namespace View

variable {α β γ δ : Type}
variable (V : View) (frame : Frame) (name : String) (site : Site)

/-- To take the second step as the view shows the state is to take the first one and look at the
result. The first one reports the illegal ones of some declarations. -/
structure Sees (V : View) (f : α → β) (m : Compile α) (m' : Compile β)
    (found : List Occurrence := [])
    (start : ScopeStack → Prop := fun _ => True) : Prop extends ReportsFrom start found m where
  same : ∀ s, m' (V.state s) = (f (m s).1, V.state (m s).2)

/-- The same for steps that make code. -/
abbrev Shows (V : View) (m m' : Compile Code) (found : List Occurrence := []) : Prop :=
  V.Sees V.code m m' found

/-- A step for a place of the text, in which only the place is seen otherwise. -/
abbrev SeesAt (V : View) (f : α → α) (m : Span → Compile α) : Prop :=
  ∀ span, V.Sees f (m span) (m (V.span span))

/-- A step for a thing and a place, both of which are seen otherwise. -/
abbrev SeesFor (V : View) (see : γ → γ) (f : α → α) (m : γ → Span → Compile α) : Prop :=
  ∀ c span, V.Sees f (m c span) (m (see c) (V.span span))

theorem fail_state (failure : Failure) (span : Span) (s : CompileState) :
    (Compile.fail failure (V.span span) (V.state s)).2 =
      V.state (Compile.fail failure span s).2 := by
  show CompileState.mk ((V.issues s.issues).push (.failure failure (V.span span))) _ _ _ _ _ = _
  rw [← V.issues_push_failure]
  rfl

namespace Sees

variable {V : View}
variable (name : String) {g : γ → δ} {m body : Compile α} {body' m' : Compile β} {c : Prop}
  {next : Unit → Compile α} {next' : Unit → Compile β} (kind : JumpKind) (failure : Failure)
  (span : Span) {f : α → β} {found found' found'' : List Occurrence}

/-! ## Steps in general -/

theorem pure {a : α} {b : β} (same : b = f a) : V.Sees f (Pure.pure a) (Pure.pure b) := by
  refine ⟨.quiet fun _ => .refl, fun s => ?_⟩
  rw [same]
  rfl

theorem follow {w : α → List Occurrence} {start : ScopeStack → Prop} {next : α → Compile γ}
    {next' : β → Compile δ} (first : V.Sees f m m' found start)
    (then_ : ∀ s, V.Sees g (next (m s).1) (next' (f (m s).1)) (w (m s).1))
    (known : ∀ s, start s.current.scopes → ¬Full (m s).2.issues → w (m s).1 = found') :
    V.Sees g (m >>= next) (m' >>= next') (found ++ found') start := by
  refine ⟨first.toReportsFrom.follow (fun s => (then_ s).toReportsFrom) known, fun s => ?_⟩
  show next' (m' (V.state s)).1 (m' (V.state s)).2 = _
  rw [first.same s]
  exact (then_ s).same (m s).2

/-- Two steps with declarations in both. -/
theorem seq {next : α → Compile γ} {next' : β → Compile δ} (first : V.Sees f m m' found)
    (then_ : ∀ a, V.Sees g (next a) (next' (f a)) found') :
    V.Sees g (m >>= next) (m' >>= next') (found ++ found') :=
  first.follow (w := fun _ => found') (fun _ => then_ _) fun _ _ _ => rfl

/-- Two steps with declarations in the second one only. -/
theorem bind {next : α → Compile γ} {next' : β → Compile δ} (first : V.Sees f m m')
    (then_ : ∀ a, V.Sees g (next a) (next' (f a)) found) :
    V.Sees g (m >>= next) (m' >>= next') found :=
  first.seq then_

/-- Two steps with declarations in the first one only. -/
theorem last {next : α → Compile γ} {next' : β → Compile δ} (first : V.Sees f m m' found)
    (then_ : ∀ a, V.Sees g (next a) (next' (f a))) :
    V.Sees g (m >>= next) (m' >>= next') found :=
  found.append_nil ▸ first.seq then_

theorem map {next : α → γ} {next' : β → δ} (first : V.Sees f m m' found)
    (same : ∀ a, next' (f a) = g (next a)) :
    V.Sees g (do return next (← m)) (do return next' (← m')) found :=
  first.last fun a => pure (same a)

theorem anywhere {start : ScopeStack → Prop} (sees : V.Sees f m m' found) :
    V.Sees f m m' found start :=
  ⟨⟨sees.full, fun s _ => sees.told s trivial⟩, sees.same⟩

theorem read : V.Sees V.state (get : Compile CompileState) get :=
  ⟨.quiet fun _ => .refl, fun _ => rfl⟩

theorem change {h h' : CompileState → CompileState} (same : ∀ s, h' (V.state s) = V.state (h s))
    (quiet : ∀ s, Continues s.issues (h s).issues) :
      V.Sees id (modify h : Compile Unit) (modify h') := by
  refine ⟨.quiet quiet, fun s => ?_⟩
  show (_, h' (V.state s)) = _
  rw [same]
  rfl

theorem ite {n : Compile α} {n' : Compile β} [Decidable c] (yes : V.Sees f m m' found)
    (no : V.Sees f n n' found) :
    V.Sees f (if c then m else n) (if c then m' else n') found := by
  split
  · exact yes
  · exact no

/-! ## Issues -/

theorem fail (legal : failure.isIllegal = false) : V.SeesAt id (Compile.fail failure) := fun span =>
  ⟨.quiet fun _ => .push .refl legal, fun s => congrArg (Prod.mk ()) (V.fail_state failure span s)⟩

theorem failed (legal : failure.isIllegal = false) {a : α} {b : β} (same : b = f a) :
    V.Sees f (do Compile.fail failure span; return a)
      (do Compile.fail failure (V.span span); return b) :=
  (fail failure legal span).bind fun _ => pure same

theorem failIf [Decidable c] {failure : Failure} (legal : failure.isIllegal = false) {span : Span}
    (rest : V.Sees f (next ()) (next' ()) found) :
    V.Sees f (if c then Compile.fail failure span >>= next else next ())
      (if c then Compile.fail failure (V.span span) >>= next' else next' ()) found :=
  ite ((fail failure legal span).bind fun _ => rest) rest

theorem failAll (failures : List Failure)
    (legal : ∀ failure ∈ failures, failure.isIllegal = false) :
    V.SeesAt id (Compile.failAll failures) := by
  intro span
  induction failures with
  | nil => exact pure rfl
  | cons failure rest ih =>
    obtain ⟨first, others⟩ := List.forall_mem_cons.mp legal
    exact (fail failure first span).bind fun _ => ih others

/-- A warning that is not seen is not asked for either. -/
theorem warnIf (asked : Bool) (w : Warning) (span : Span) :
    V.Sees id (if asked then Compile.warn w span else Pure.pure ())
      (if asked && V.keeps w then Compile.warn w (V.span span) else Pure.pure ()) := by
  cases asked with
  | false => exact pure rfl
  | true =>
    cases kept : V.keeps w with
    | true =>
      refine change (fun s => ?_) fun _ => .push .refl rfl
      simp [state, issues_push_warning, kept]
    | false =>
      refine ⟨.quiet fun s => .push .refl rfl, fun s => ?_⟩
      have silent : V.issues (s.issues.push (.warning w span)) = V.issues s.issues := by
        simp [issues_push_warning, kept]
      show ((), V.state s) = ((), V.state { s with issues := s.issues.push (.warning w span) })
      simp only [state, silent]

theorem warnUnused : V.SeesFor V.site id Compile.warnUnused := fun site =>
  warnIf site.unit.options.warnUnusedValues .unusedValue

theorem warnUnreachable : V.SeesFor V.site id Compile.warnUnreachable := fun site =>
  warnIf site.unit.options.warnUnreachableCode .unreachableCode

theorem warnThen [Decidable c] (site : Site) (span : Span)
    (rest : V.Sees f (next ()) (next' ()) found) :
    V.Sees f (if c then Compile.warnUnreachable site span >>= next else next ())
      (if c then Compile.warnUnreachable (V.site site) (V.span span) >>= next' else next'
        ()) found :=
  ite ((warnUnreachable site span).bind fun _ => rest) rest

/-! ## Functions and pools -/

theorem modifyFrame {h h' : Frame → Frame}
    (same : ∀ frame, h' (V.frame frame) = V.frame (h frame)) :
    V.Sees id (Compile.modifyFrame h) (Compile.modifyFrame h') :=
  change (fun s => by simp only [state, same]) fun _ => .refl

theorem modifyScopes (h : ScopeStack → ScopeStack) :
    V.Sees id (Compile.modifyScopes h) (Compile.modifyScopes h) :=
  modifyFrame fun _ => rfl

theorem markInitialized (slot : Nat) :
    V.Sees id (Compile.markInitialized slot) (Compile.markInitialized slot) :=
  modifyScopes _

theorem allocate (step : ScopeStack → Except Failure (Nat × ScopeStack))
    (legal : ∀ s, Legal (step s)) :
    V.SeesAt id (Compile.allocate step) := by
  intro span
  refine read.bind fun s => ?_
  have same : (V.state s).current.scopes = s.current.scopes := rfl
  rw [same]
  cases result : step s.current.scopes with
  | ok result => exact (modifyScopes _).bind fun _ => pure rfl
  | error failure => exact failed failure span (legal _ failure result) rfl

theorem declareLocal (mutable : Bool) : V.SeesAt id (Compile.declareLocal name mutable) :=
  allocate _ fun scopes => scopes.legal_declare name mutable

theorem declareHidden (purpose : String) : V.SeesAt id (Compile.declareHidden purpose) :=
  allocate _ fun scopes => scopes.legal_allocate purpose false true

theorem addToPool (v : Value) :
    V.Sees id (Compile.addToPool v) (Compile.addToPool (V.value v)) := by
  refine ⟨.quiet fun _ => .refl, fun s => ?_⟩
  have added := V.add_pool s.current.pool v
  show (((V.pool s.current.pool).add (V.value v)).1, CompileState.mk _
    ⟨s.current.isClosure, s.current.ivars, ((V.pool s.current.pool).add (V.value v)).2,
      s.current.scopes, s.current.captures⟩ _ _ _ _) = _
  rw [added]
  rfl

theorem addConstant : V.SeesFor V.value id Compile.addConstant := by
  intro v span
  refine (addToPool v).follow (w := fun _ => []) (fun s => ?_) fun _ _ _ => rfl
  have legal : Legal (Compile.addToPool v s).1 := s.current.pool.legal_add v
  cases result : (Compile.addToPool v s).1 with
  | ok index => exact pure rfl
  | error failure => exact failed failure span (legal failure result) rfl

theorem inFunction (isClosure : Bool) (ivars : IvarAccess)
    (inside : V.Sees f body body' found (· = .new)) :
    V.Sees (fun made => (f made.1, V.frame made.2)) (Compile.inFunction isClosure ivars body)
      (Compile.inFunction isClosure ivars body') found := by
  refine ⟨⟨fun s full => inside.full _ full, fun s _ fits => inside.told _ rfl fits⟩, fun s => ?_⟩
  have start : (V.state s).nested isClosure ivars = V.state (s.nested isClosure ivars) := by
    simp [CompileState.nested, state]
  have back (t : CompileState) : (V.state t).returned s.imports =
      V.state (t.returned s.imports) := by
    cases outer : t.enclosing <;> simp [CompileState.returned, state, outer]
  rw [Compile.inFunction_run, Compile.inFunction_run, start, inside.same]
  exact congrArg (Prod.mk _) (back _)

/-! ## Pieces of code -/

theorem nothing : V.Shows (Pure.pure #[]) (Pure.pure #[]) := pure V.code_empty.symm

theorem indexed (family : Family) (index : Nat) : V.SeesAt V.code (Compile.indexed family index) :=
  fun span =>
  ite (pure (V.code_one span _).symm) (failed _ span (by cases family <;> rfl) V.code_empty.symm)

theorem loadValue : V.SeesFor V.value V.code Compile.loadValue := fun v span =>
  (addConstant v span).map fun _ => (V.code_one span _).symm

theorem loadSymbol : V.SeesAt V.code (Compile.loadSymbol name) :=
  loadValue (.symbol name)

theorem getConst (fullName : String) : V.SeesAt V.code (Compile.getConst fullName) := fun span =>
  (addConstant (.symbol fullName) span).map fun _ => (V.code_one span _).symm

theorem loadInt (n : Int) : V.SeesAt V.code (Compile.loadInt n) := fun span =>
  ite (pure (V.code_one span _).symm) (loadValue (.int (Int64.ofInt n)) span)

theorem loadLiteral (value : Literal) : V.SeesAt V.code (Compile.loadLiteral value) := by
  intro span
  cases value with
  | nil => exact pure (V.code_plain span _).symm
  | bool flag => cases flag <;> exact pure (V.code_plain span _).symm
  | int n => exact loadInt n.toInt span
  | float x => exact loadValue (.float x) span
  | string s => exact loadValue (.string s) span
  | symbol s => exact loadSymbol s span

theorem argumentCount (count : Nat) : V.SeesAt id (Compile.argumentCount count) := fun span =>
  ite (pure rfl) (failed _ span rfl rfl)

theorem send (kind : CallKind) (name : String) (count : Nat) :
    V.SeesAt V.code (Compile.send kind name count) := fun span =>
  (addConstant (.symbol name) span).bind fun _ =>
    (argumentCount count span).map fun _ => (V.code_one span _).symm

/-! ## Scopes -/

theorem foldCode (f : α → β) {step : α → Compile Code} {step' : β → Compile Code}
    (each : ∀ a, V.Shows (step a) (step' (f a))) (items : List α) {code code' : Code}
    (same : code' = V.code code) :
    V.Shows (items.foldlM (fun code a => return code ++ (← step a)) code)
      ((items.map f).foldlM (fun code b => return code ++ (← step' b)) code') := by
  induction items generalizing code code' with
  | nil => exact pure same
  | cons a rest ih =>
    rw [List.map_cons, List.foldlM_cons, List.foldlM_cons]
    exact Sees.bind ((each a).map fun _ => by simp [same]) fun _ => ih rfl

theorem foldSame {step step' : α → Compile Code} (each : ∀ a, V.Shows (step a) (step' a))
    (items : List α) :
    V.Shows (items.foldlM (fun code a => return code ++ (← step a)) #[])
      (items.foldlM (fun code a => return code ++ (← step' a)) #[]) := by
  have folded := foldCode id each items V.code_empty.symm
  rwa [List.map_id] at folded

theorem closeSlots (slots : List Nat) :
    V.Shows (Compile.closeSlots span slots) (Compile.closeSlots (V.span span) slots) :=
  foldSame (fun slot => indexed .closeUpvalue slot span) slots

theorem withScope (inside : V.Sees f body body' found) :
    V.Sees (fun made => (f made.1, V.code made.2)) (Compile.withScope span body)
      (Compile.withScope (V.span span) body') found := by
  refine read.bind fun s => (modifyScopes _).bind fun _ => ?_
  refine Sees.bind (change (fun s => ?_) fun _ => .refl) fun _ => inside.last fun made =>
    read.bind fun s' => ?_
  · rfl
  · refine (modifyScopes _).bind fun _ => (closeSlots span _).bind fun ending => ?_
    refine Sees.bind (change (fun s => ?_) fun _ => .refl) fun _ => pure rfl
    rfl

theorem inScope {body body' : Compile Code} (inside : V.Shows body body' found) :
    V.Shows (Compile.inScope span body) (Compile.inScope (V.span span) body') found :=
  (withScope span inside).last fun made => pure (V.code_append made.1 made.2).symm

/-! ## Control flow -/

theorem jump (distance : Nat) (span failureSpan : Span) :
    V.Shows (Compile.jump kind distance span failureSpan)
      (Compile.jump kind distance (V.span span) (V.span failureSpan)) :=
  ite (pure (V.code_one span _).symm)
    ((fail _ rfl failureSpan).bind fun _ => pure (V.code_one span _).symm)

theorem shortCircuit {left right left' right' : Compile Code} (isLeft : V.Shows left left' found)
    (isRight : V.Shows right right' found') :
    V.Shows (Compile.shortCircuit kind span left right)
      (Compile.shortCircuit kind (V.span span) left' right') (found ++ found') := by
  refine isLeft.seq fun left => isRight.last fun right => ?_
  rw [V.byteSize_code]
  exact (jump kind _ span span).map (by simp)

theorem conditional {condition yes no condition' yes' no' : Compile Code}
    (isCondition : V.Shows condition condition' found) (isYes : V.Shows yes yes' found')
    (isNo : V.Shows no no' found'') :
    V.Shows (Compile.conditional span condition yes no)
      (Compile.conditional (V.span span) condition' yes' no') (found ++ (found' ++ found'')) := by
  refine isCondition.seq fun condition => isYes.seq fun yes => ?_
  rw [V.byteSize_code]
  refine (jump .whenFalse _ span span).bind fun otherwise => isNo.last fun no => ?_
  rw [V.byteSize_code]
  exact (jump .always _ span span).map (by simp)

theorem loop {condition body condition' body' : Compile Code}
    (isCondition : V.Shows condition condition' found) (isBody : V.Shows body body' found') :
    V.Shows (Compile.loop span condition body)
      (Compile.loop (V.span span) condition' body') (found ++ found') := by
  refine isCondition.seq fun condition => isBody.last fun body => ?_
  rw [V.byteSize_code, V.byteSize_code]
  exact (jump .back _ span span).bind fun back => (jump .whenFalse _ span span).map (by simp)

end Sees

/-- An arm as the view shows it. -/
def arm (V : View) (a : Compile.Arm) : Compile.Arm := ⟨V.code a.code, V.span a.span⟩

namespace Sees

variable {V : View} {found : List Occurrence}

theorem arm (span : Span) {test body test' body' : Compile Code} (isTest : V.Shows test test')
    (isBody : V.Shows body body' found) :
    V.Sees V.arm (Compile.arm span test body) (Compile.arm (V.span span) test' body') found := by
  have inside : V.Sees (fun made : Code × Code => (V.code made.1, V.code made.2))
      (do let test ← test
          let body ← body
          return (test, body))
      (do let test ← test'
          let body ← body'
          return (test, body)) found :=
    isTest.bind fun test => isBody.map fun body => rfl
  refine (withScope span inside).last fun made => ?_
  obtain ⟨⟨test, body⟩, ending⟩ := made
  dsimp only
  rw [V.byteSize_code, V.byteSize_code]
  exact (jump .whenFalse _ span span).map fun next => by simp [View.arm]

theorem joinArms (span : Span) (elseBranch : Code) (arms : List Compile.Arm) (size : Nat)
    {code code' : Code} (same : code' = V.code code) :
    V.Shows (Compile.joinArms span elseBranch size code arms)
      (Compile.joinArms (V.span span) (V.code elseBranch) size code' (arms.map V.arm)) := by
  induction arms generalizing size code code' with
  | nil => exact pure (by simp [same])
  | cons arm rest ih =>
    rw [List.map_cons, Compile.joinArms, Compile.joinArms]
    dsimp only [View.arm]
    rw [V.byteSize_code]
    exact (jump .always _ arm.span span).bind fun _ => ih _ (by simp [same])

theorem switch (span : Span) (arms : List Compile.Arm) (elseBranch : Code) :
    V.Shows (Compile.switch span arms elseBranch)
      (Compile.switch (V.span span) (arms.map V.arm) (V.code elseBranch)) := by
  have size : (arms.map V.arm).foldr (fun arm n => arm.code.byteSize + 3 + n)
      (V.code elseBranch).byteSize =
        arms.foldr (fun arm n => arm.code.byteSize + 3 + n) elseBranch.byteSize := by
    simp [List.foldr_map, View.arm]
  unfold Compile.switch
  rw [size]
  exact joinArms span elseBranch arms _ V.code_empty.symm

end Sees

theorem finish (V : View) (frame : Frame) (name file : String) (span : Span)
    (required optional : Nat) (code : Code) :
    (V.frame frame).finish name (V.file file) (V.span span) required optional (V.code code) =
      V.function (frame.finish name file span required optional code) := by
  have scopes : (V.frame frame).scopes = frame.scopes := rfl
  have captures : (V.frame frame).captures = frame.captures := rfl
  have constants : (V.frame frame).pool.values.toList = V.values frame.pool.values.toList := by
    simp [View.frame, View.pool, V.values_eq_map]
  unfold Frame.finish
  rw [scopes, captures, constants]
  dsimp only [View.function, View.location]
  split
  · rw [V.bytes_code, V.lines_code]
  · rw [← V.code_one, ← V.code_append, V.bytes_code, V.lines_code]

theorem lookup_site : (V.site site).unit.lookup = site.unit.lookup :=
  V.lookup_declared _ _

theorem capture_frame (outer : Variable) :
    (V.frame frame).capture name outer =
      ((frame.capture name outer).1, V.frame (frame.capture name outer).2) := by
  have same : (V.frame frame).captures = frame.captures := rfl
  unfold Frame.capture
  rw [same]
  cases frame.captures.capture name outer.place outer.mutable <;> rfl

theorem findUpvalue_frame (frames : List Frame) :
    ∀ frame : Frame, findUpvalue name (V.frame frame) (frames.map V.frame) =
      ((findUpvalue name frame frames).1, V.frame (findUpvalue name frame frames).2.1,
        (findUpvalue name frame frames).2.2.map V.frame) := by
  induction frames with
  | nil => exact fun _ => rfl
  | cons parent outer ih =>
    intro frame
    have closed : (V.frame frame).isClosure = frame.isClosure := rfl
    have scopes : (V.frame parent).scopes = parent.scopes := rfl
    rw [List.map_cons, findUpvalue, findUpvalue, closed, scopes]
    split
    · cases parent.scopes.lookup? name with
      | some b =>
        dsimp only
        rw [capture_frame]
        rfl
      | none =>
        dsimp only
        rw [ih parent]
        generalize findUpvalue name parent outer = result
        obtain ⟨found, parent, outer⟩ := result
        rcases found with failure | (_ | v)
        · rfl
        · rfl
        · dsimp only
          rw [capture_frame]
          rfl
    · rfl

namespace Sees

variable {V : View}
variable (place : Place) (operand : Option Compile.IvarOperand) (name : String)
  {found : List Occurrence}

/-! ## Variables -/

theorem resolveVariable : V.SeesAt id (Compile.resolveVariable name) := by
  refine fun span => ⟨.quiet fun s => ?_, fun s => ?_⟩
  · rw [Ensures.resolveVariable_run]
    split
    · exact .refl
    · split
      · exact .refl
      · rename_i failure failed
        exact .push .refl (legal_findUpvalue name s.current s.enclosing failure failed)
  · have scopes : (V.state s).current.scopes = s.current.scopes := rfl
    have captured : findUpvalue name (V.state s).current (V.state s).enclosing = _ :=
      V.findUpvalue_frame name s.enclosing s.current
    rw [Ensures.resolveVariable_run, Ensures.resolveVariable_run, scopes]
    cases s.current.scopes.lookup? name with
    | some b => rfl
    | none =>
      have shown : Ensures.withCaptured name (V.state s) =
          V.state (Ensures.withCaptured name s) := by
        unfold Ensures.withCaptured
        rw [captured]
        rfl
      rw [captured, shown]
      cases (findUpvalue name s.current s.enclosing).1 with
      | ok v => rfl
      | error failure =>
        exact congrArg (Prod.mk none) (V.fail_state failure span (Ensures.withCaptured name s))

theorem getPlace : V.SeesAt V.code (Compile.getPlace place) := by
  intro span
  cases place with
  | «local» slot => exact indexed .getLocal slot span
  | upvalue index => exact indexed .getUpvalue index span

theorem setPlace : V.SeesAt V.code (Compile.setPlace place) := by
  intro span
  cases place with
  | «local» slot =>
    exact (indexed .setLocal slot span).bind fun code =>
      (markInitialized slot).bind fun _ => pure rfl
  | upvalue index => exact indexed .setUpvalue index span

theorem getVariable : V.SeesAt V.code (Compile.getVariable name) := by
  intro span
  refine (resolveVariable name span).bind fun v => ?_
  cases v with
  | some v => exact failIf rfl (getPlace v.place span)
  | none => exact failed _ span rfl (V.code_placeholder span).symm

theorem assignVariable (operator : Option BinaryOp) (span : Span) {value value' : Compile Code}
    (isValue : V.Shows value value' found) :
    V.Shows (Compile.assignVariable name operator span value)
      (Compile.assignVariable name operator (V.span span) value') found := by
  refine (resolveVariable name span).bind fun v => ?_
  cases v with
  | none => exact (fail _ rfl span).bind fun _ => isValue
  | some v =>
    refine failIf rfl ?_
    cases operator with
    | none =>
      exact isValue.last fun value => (setPlace v.place span).map (by simp)
    | some op =>
      refine failIf rfl ((getPlace v.place span).bind fun old => isValue.last fun value => ?_)
      exact (setPlace v.place span).map (by simp)

theorem bindLocal (mutable : Bool) : V.SeesAt V.code (Compile.bindLocal name mutable) := by
  intro span
  refine (declareLocal name mutable span).bind fun slot => ?_
  cases slot with
  | some slot => exact (setPlace (.local slot) span).map (by simp)
  | none => exact pure (V.code_plain span _).symm

theorem ivarOperand : V.SeesFor V.site id (Compile.ivarOperand · name) := by
  intro site span
  refine read.bind fun s => ?_
  have ivars : (V.state s).current.ivars = s.current.ivars := rfl
  rw [ivars]
  cases s.current.ivars with
  | fixed fullName singleton =>
    have table : (V.site site).unit.table? fullName singleton =
      site.unit.table? fullName singleton :=
      rfl
    dsimp only
    rw [table]
    cases (site.unit.table? fullName singleton).bind (·.index? name) with
    | some slot => exact pure rfl
    | none => exact failed _ span rfl rfl
  | byName fullName =>
    exact ite ((addConstant (.symbol name) span).map fun _ => rfl) (failed _ span rfl rfl)
  | forbidden => exact failed _ span rfl rfl

theorem getIvarOperand : V.SeesAt V.code (Compile.getIvarOperand operand) := by
  intro span
  rcases operand with _ | (index | index)
  · exact pure (V.code_placeholder span).symm
  · exact indexed .getIvar index span
  · exact pure (V.code_one span _).symm

theorem setIvarOperand : V.SeesAt V.code (Compile.setIvarOperand operand) := by
  intro span
  rcases operand with _ | (index | index)
  · exact nothing
  · exact indexed .setIvar index span
  · exact pure (V.code_one span _).symm

theorem getIvar : V.SeesFor V.site V.code (Compile.getIvar · name) := fun site span =>
  (ivarOperand name site span).bind fun operand => getIvarOperand operand span

theorem assignIvar (site : Site) (name : String) (operator : Option BinaryOp) (span : Span)
    {value value' : Compile Code} (isValue : V.Shows value value' found) :
    V.Shows (Compile.assignIvar site name operator span value)
      (Compile.assignIvar (V.site site) name operator (V.span span) value') found := by
  refine (ivarOperand name site span).bind fun operand => ?_
  cases operator with
  | none =>
    exact isValue.last fun value => (setIvarOperand operand span).map (by simp)
  | some op =>
    refine (getIvarOperand operand span).bind fun old => isValue.last fun value => ?_
    exact (setIvarOperand operand span).map (by simp)

theorem getPath (path : Path) : V.SeesFor V.site V.code (Compile.getPath · path) := by
  intro site span
  refine read.bind fun s => ?_
  have imports : (V.state s).imports = s.imports := rfl
  have nesting : (V.site site).nesting = site.nesting := rfl
  rw [lookup_site, imports, nesting]
  have legal := legal_resolve s.imports site.nesting site.unit.lookup path
  cases result : resolve s.imports site.nesting site.unit.lookup path with
  | ok fullName => exact getConst fullName span
  | error failure => exact failed failure span (legal failure result) (V.code_placeholder span).symm

end Sees

/-! ## Patterns -/

/-- A step as the view shows it. -/
def step (V : View) : Step → Step
  | .run instr => .run (V.located instr)
  | .require line => .require (V.line line)

/-- Steps as the view shows them. -/
def steps (V : View) (steps : Steps) : Steps := steps.map V.step

section

variable (V : View)

@[simp] theorem steps_empty : V.steps #[] = #[] := by
  simp [steps]

@[simp] theorem steps_append (a b : Steps) : V.steps (a ++ b) = V.steps a ++ V.steps b := by
  simp [steps]

@[simp] theorem steps_ofCode (code : Code) : V.steps (.ofCode code) = .ofCode (V.code code) := by
  simp [steps, Steps.ofCode, View.code, Function.comp_def, step]

theorem size_steps (steps : Steps) :
    (V.steps steps).foldl (fun n step => n + step.size) 0 =
      steps.foldl (fun n step => n + step.size) 0 := by
  have same : ∀ step : Step, (V.step step).size = step.size := by
    intro step
    cases step <;> rfl
  rw [View.steps, ← Array.foldl_toList, ← Array.foldl_toList, Array.toList_map, List.foldl_map]
  simp only [same]

theorem any_steps (steps : Steps) :
    (V.steps steps).any Compile.Step.canFail = steps.any Compile.Step.canFail := by
  have same : ∀ step : Step, Compile.Step.canFail (V.step step) = Compile.Step.canFail step := by
    intro step
    cases step <;> rfl
  rw [View.steps, ← Array.any_toList, ← Array.any_toList, Array.toList_map, List.any_map]
  simp only [Function.comp_def, same]

@[simp] theorem steps_require (span : Span) : V.steps (.require span) = .require (V.span span) := by
  simp [steps, Steps.require, step, V.line_span]

end

namespace Sees

variable {V : View}
variable (subject : Subject) (declaration : Declaration) (slot : Nat) (target : DefinitionTarget)
  (kind : AttributeKind) (name : String) {found : List Occurrence}
variable {value value' : Compile Code}

theorem loadSubject : V.SeesAt V.code (Compile.loadSubject subject) := by
  intro span
  cases subject with
  | slot slot => exact indexed .getLocal slot span
  | element sequence index =>
    exact (indexed .getLocal sequence span).bind fun _ => (loadInt index span).map (by simp)
  | entry map key =>
    exact (indexed .getLocal map span).bind fun _ => (loadLiteral key span).map (by simp)

theorem holdSubject :
    V.SeesAt (Option.map fun held => (held.1, V.code held.2)) (Compile.holdSubject subject) := by
  intro span
  cases subject with
  | slot slot => exact pure (by simp)
  | element _ _ | entry _ _ =>
    refine (declareHidden "pattern element" span).bind fun slot => ?_
    cases slot with
    | none => exact pure rfl
    | some slot =>
      exact (loadSubject _ span).bind fun _ => (indexed .setLocal slot span).map (by simp)

theorem classCheck (fullName : String) :
    V.SeesAt V.steps (Compile.classCheck slot fullName) := fun span =>
  (indexed .getLocal slot span).bind fun _ => (getConst fullName span).map (by simp)

theorem lengthCheck (count : Nat) (hasRest : Bool) :
    V.SeesAt V.steps (Compile.lengthCheck slot count hasRest) := fun span =>
  (indexed .getLocal slot span).bind fun _ => (loadInt count span).map (by simp)

theorem keyCheck (key : Literal) : V.SeesAt V.steps (Compile.keyCheck slot key) := fun span =>
  (indexed .getLocal slot span).bind fun _ => (loadLiteral key span).map (by simp)

theorem bindRest (slot leading trailing : Nat) (rest : Option Rest) (mutable : Bool) :
    V.SeesAt V.code (Compile.bindRest slot leading trailing rest mutable) := by
  intro span
  unfold Compile.bindRest
  cases rest.bind Rest.binding with
  | none => exact nothing
  | some name =>
    refine ite ?_ (failed _ span rfl V.code_empty.symm)
    exact (indexed .getLocal slot span).bind fun _ => (bindLocal name mutable span).map (by simp)

mutual

theorem patternSteps (mutable : Bool) : ∀ (p : Pattern) (subject : Subject),
    V.Sees V.steps (Compile.patternSteps mutable p subject)
      (Compile.patternSteps mutable (p.mapSpans V.span) subject)
  | .wildcard _, _ => pure V.steps_empty.symm
  | .binding span name, subject =>
    (loadSubject subject span).bind fun _ => (bindLocal name mutable span).map (by simp)
  | .literal span value, subject =>
    (loadSubject subject span).bind fun _ => (loadLiteral value span).map (by simp)
  | .sequence span kind elements rest, subject => by
    rw [Pattern.mapSpans, Compile.patternSteps, Compile.patternSteps, length_mapPatterns]
    refine (holdSubject subject span).bind fun held => ?_
    cases held with
    | none => exact pure V.steps_empty.symm
    | some held =>
      obtain ⟨slot, hold⟩ := held
      refine (classCheck slot _ span).bind fun isSequence => ?_
      refine (lengthCheck slot _ _ span).bind fun hasLength => ?_
      refine (elementSteps mutable slot _ _ elements 0 (by simp)).bind fun steps => ?_
      exact (bindRest slot _ _ rest mutable span).map (by simp)
  | .map span entries, subject => by
    rw [Pattern.mapSpans, Compile.patternSteps, Compile.patternSteps]
    refine (holdSubject subject span).bind fun held => ?_
    cases held with
    | none => exact pure V.steps_empty.symm
    | some held =>
      obtain ⟨slot, hold⟩ := held
      exact (classCheck slot _ span).bind fun isMap => entrySteps mutable slot entries (by simp)

theorem elementSteps (mutable : Bool) (slot leading count : Nat) :
    ∀ (elements : List Pattern) (position : Nat) {steps steps' : Steps}, steps' = V.steps steps →
      V.Sees V.steps (Compile.elementSteps mutable slot leading count position steps elements)
        (Compile.elementSteps mutable slot leading count position steps'
          (mapPatterns V.span elements))
  | [], _, _, _, same => pure same
  | element :: rest, position, _, _, same =>
    (patternSteps mutable element _).bind fun _ =>
      elementSteps mutable slot leading count rest _ (by simp [same])

theorem entrySteps (mutable : Bool) (slot : Nat) :
    ∀ (entries : List (Literal × Pattern)) {steps steps' : Steps}, steps' = V.steps steps →
      V.Sees V.steps (Compile.entrySteps mutable slot steps entries)
        (Compile.entrySteps mutable slot steps' (mapPatternEntries V.span entries))
  | [], _, _, same => pure same
  | (key, p) :: rest, _, _, same => by
    rw [mapPatternEntries, Compile.entrySteps, Compile.entrySteps, Pattern.span_mapSpans]
    exact (keyCheck slot key p.span).bind fun _ => (patternSteps mutable p _).bind fun _ =>
      entrySteps mutable slot rest (by simp [same])

end

theorem resolveSteps (span : Span) (steps : List Step) (size : Nat) {code code' : Code}
    (same : code' = V.code code) :
    V.Shows (Compile.resolveSteps span size code steps)
      (Compile.resolveSteps (V.span span) size code' (steps.map V.step)) := by
  induction steps generalizing size code code' with
  | nil => exact pure same
  | cons step rest ih =>
    cases step with
    | run instr => exact ih _ (by rw [same, ← V.code_push])
    | require line =>
      rw [List.map_cons, View.step, Compile.resolveSteps, Compile.resolveSteps, ← V.span_point]
      exact (jump .whenFalse _ _ span).bind fun _ => ih _ (by simp [same])

theorem patternTest (pattern : Pattern) (slot : Nat) (mutable : Bool) :
    V.Shows (Compile.patternTest pattern slot mutable)
      (Compile.patternTest (pattern.mapSpans V.span) slot mutable) := by
  unfold Compile.patternTest
  rw [Pattern.span_mapSpans]
  refine (patternSteps mutable pattern (.slot slot)).bind fun steps => ?_
  dsimp only
  rw [size_steps, any_steps, View.steps, Array.toList_map]
  refine (resolveSteps pattern.span steps.toList _ V.code_empty.symm).bind fun checks =>
    ite ?_ (pure (by simp))
  exact (jump .always 1 pattern.span pattern.span).map (by simp)

theorem patternDeclaration (pattern : Pattern) (mutable : Bool) (span : Span)
 (isValue : V.Shows value value' found) :
    V.Shows (Compile.patternDeclaration pattern mutable span value)
      (Compile.patternDeclaration (pattern.mapSpans V.span) mutable (V.span span) value')
        found := by
  refine isValue.last fun value => (declareHidden "pattern subject" span).bind fun slot => ?_
  cases slot with
  | none => exact pure (by simp)
  | some slot =>
    refine (indexed .setLocal slot span).bind fun store => ?_
    refine (patternTest pattern slot mutable).bind fun test => ?_
    refine (getConst patternErrorName span).bind fun error => ?_
    refine (loadValue (.string (Compile.mismatchMessage mutable)) span).bind fun message => ?_
    dsimp only
    rw [← V.code_one, ← V.code_plain, ← V.code_append, ← V.code_append, ← V.code_append,
      V.byteSize_code]
    exact (jump .whenTrue _ span span).map (by simp)

/-! ## Members -/

theorem checkDeclaration (site : Site) (span : Span) :
    V.Sees id (Compile.checkDeclaration site declaration span)
      (Compile.checkDeclaration (V.site site) declaration (V.span span))
      [⟨declaration, site.context, span⟩] := by
  have context : (V.site site).context = site.context := rfl
  refine ⟨reports_checkDeclaration site declaration span, fun s => ?_⟩
  unfold Compile.checkDeclaration
  rw [context]
  split
  · rfl
  · exact congrArg (Prod.mk false) (V.fail_state _ span s)

/-- What comes after a check depends on whether the declaration may stand where it does. -/
theorem checked {f : α → β} {next : Bool → Compile α} {next' : Bool → Compile β} (site : Site)
    (span : Span)
    (rest : V.Sees f (next (site.context.permits declaration))
      (next' (site.context.permits declaration))
      found) :
    V.Sees f (Compile.checkDeclaration site declaration span >>= next)
      (Compile.checkDeclaration (V.site site) declaration (V.span span) >>= next')
      (⟨declaration, site.context, span⟩ :: found) := by
  refine (checkDeclaration declaration site span).follow (w := fun _ => found)
    (fun s => ?_) fun _ _ _ => rfl
  rw [checkDeclaration_fst]
  exact rest

theorem inMembers {body body' : Compile Code} (isBody : V.Shows body body') :
    V.Sees id (Compile.inMembers body) (Compile.inMembers body') := by
  refine Sees.bind (change (fun s => ?_) fun _ => .refl) fun _ => isBody.bind fun code =>
    change (fun s => ?_) fun _ => .refl
  · rfl
  · simp [state, View.frame]

theorem loadTarget : V.SeesAt V.code (Compile.loadTarget target) := fun span =>
  (getConst target.fullName span).map fun owner => by
    cases target.singleton <;> simp

theorem defineMethod :
    V.SeesFor V.function id (Compile.defineMethod target name) := fun function span =>
  inMembers <| (loadTarget target span).bind fun _ =>
    (loadValue (.function function) span).bind fun _ => (loadSymbol name span).map (by simp)

theorem defineGetter : V.SeesAt V.code (Compile.defineGetter target name) := fun span =>
  (loadTarget target span).bind fun _ => (loadSymbol name span).map (by simp)

theorem defineSetter : V.SeesAt V.code (Compile.defineSetter target name) := fun span =>
  (loadTarget target span).bind fun _ => (loadSymbol name span).map (by simp)

theorem defineAttribute : V.SeesAt V.code (Compile.defineAttribute target kind name) := by
  intro span
  cases kind with
  | getter => exact defineGetter target name span
  | setter => exact defineSetter target name span
  | accessor =>
    exact (defineGetter target name span).bind fun _ =>
      (defineSetter target name span).map (by simp)

theorem defineAlias (entry : Alias) :
    V.SeesAt V.code (Compile.defineAlias target entry) := fun span =>
  (loadTarget target span).bind fun _ => (loadSymbol entry.newName span).bind fun _ =>
    (loadSymbol entry.oldName span).map (by simp)

theorem defineEntries {step : DefinitionTarget → α → Span → Compile Code} (entries : List α)
    (each : ∀ target entry, V.SeesAt V.code (step target entry))
    {define : Site → Span → Compile Unit} (is : ∀ (site : Site) span, define site span = do
      if ← Compile.checkDeclaration site declaration span then
        match site.definitionTarget? with
        | none => return
        | some target => Compile.inMembers <| entries.foldlM (fun code entry =>
            return code ++ (← step target entry span)) #[]) :
    ∀ site span, V.Sees id (define site span) (define (V.site site) (V.span span))
      [⟨declaration, site.context, span⟩] := by
  intro site span
  rw [is, is]
  refine checked declaration site span (ite ?_ (pure rfl))
  have same : (V.site site).definitionTarget? = site.definitionTarget? := rfl
  rw [same]
  cases site.definitionTarget? with
  | none => exact pure rfl
  | some target => exact inMembers (foldSame (fun entry => each target entry span) entries)

theorem defineAttributes (entries : List Attribute) :
    ∀ site span, V.Sees id (Compile.defineAttributes site kind entries span)
      (Compile.defineAttributes (V.site site) kind entries (V.span span))
      [⟨kind.declaration, site.context, span⟩] :=
  defineEntries kind.declaration entries
    (fun target entry => defineAttribute target kind entry.name) fun _ _ => rfl

theorem defineAliases (entries : List Alias) :
    ∀ site span, V.Sees id (Compile.defineAliases site entries span)
      (Compile.defineAliases (V.site site) entries (V.span span))
        [⟨.aliases, site.context, span⟩] :=
  defineEntries .aliases entries defineAlias fun _ _ => rfl

theorem useImports (entries : List Using) :
    V.SeesFor V.site id (Compile.useImports · entries) := by
  intro site span
  refine read.bind fun s => ?_
  rw [lookup_site]
  refine Sees.bind (change (fun s => ?_) fun _ => .refl) fun _ =>
    failAll _ (Imports.legal_use s.imports _ _ entries) span
  rfl

theorem recordNamespace (record : NamespaceRecord) :
    V.Sees id (Compile.recordNamespace record) (Compile.recordNamespace (V.record record)) := by
  refine change (fun s => ?_) fun s => ?_
  · have known : (V.state s).records.contains (V.record record).fullName =
        s.records.contains record.fullName := contains_map _ _ _
    rw [known]
    split
    · rfl
    · simp only [state, map_insert]
      rfl
  · split <;> exact .refl

/-! ## Declarations in code -/

theorem declareParams (params : List Parameter) :
    ∀ (seen : NameTable) (seenOptional : Bool) (slots : Array (Option Nat)),
      V.Sees id (StackCode.declareParams seen seenOptional slots params)
        (StackCode.declareParams seen seenOptional slots (mapParams V.span params)) := by
  induction params with
  | nil => exact fun _ _ _ => pure rfl
  | cons param rest ih =>
    intro seen seenOptional slots
    obtain ⟨name, default, declaredType, span⟩ := param
    rw [mapParams, StackCode.declareParams, StackCode.declareParams]
    dsimp only
    rw [isNone_mapExpr, isSome_mapExpr]
    refine failIf rfl (ite ((declareHidden name span).bind fun slot => ?_)
      ((declareLocal name true span).bind fun slot => ?_))
    all_goals
      cases slot with
      | none => exact failIf rfl (ih _ _ _)
      | some slot => exact (markInitialized slot).bind fun _ => failIf rfl (ih _ _ _)

theorem defaultValue (span : Span)
    (isValue : V.Shows value value' found) :
    V.Shows (StackCode.defaultValue slot span value)
      (StackCode.defaultValue slot (V.span span) value') found := by
  refine (indexed .getLocal slot span).bind fun argument => isValue.last fun value => ?_
  refine (indexed .setLocal slot span).bind fun store => ?_
  dsimp only
  rw [← V.code_plain, ← V.code_append, ← V.code_append, V.byteSize_code]
  exact (jump .unlessMissing _ span span).map (by simp)

theorem defineConstant (site : Site) (name : String) (literal : Option Value)
    (valueSpan span : Span)
 (plain : ∀ v, literal = some v → V.value v = v ∧ found = [])
    (isValue : V.Shows value value' found) :
    V.Shows (StackCode.defineConstant site name literal valueSpan span value)
      (StackCode.defineConstant (V.site site) name literal (V.span valueSpan) (V.span span) value')
      (⟨.constant, site.context, span⟩ :: found) := by
  refine checked .constant site span (ite ?_ (isValue.map (by simp)))
  refine (getConst _ span).bind fun owner => (loadSymbol name span).bind fun name => ?_
  cases literal with
  | none => exact isValue.map (by simp)
  | some literal =>
    obtain ⟨seen, rfl⟩ := plain literal rfl
    have loaded := loadValue (V := V) literal valueSpan
    rw [seen] at loaded
    exact loaded.map (by simp)

end Sees

theorem finish_ret (span : Span) (required optional : Nat) (code : Code) :
    (V.frame frame).finish name (V.site site).unit.options.file (V.span span) required optional
        (V.code code ++ Code.plain (V.span span).ending .ret) =
      V.function (frame.finish name site.unit.options.file span required optional
        (code ++ Code.plain span.ending .ret)) := by
  rw [← V.span_ending, ← V.code_plain, ← V.code_append]
  exact V.finish frame name _ span required optional _

theorem opened?_site (kind : NamespaceKind) (target : Option (String × String)) :
    (V.site site).opened? kind target = site.opened? kind target := by
  cases target with
  | none => rfl
  | some target =>
    have found : (V.site site).unit.declared.get? target.2 =
        (site.unit.declared.get? target.2).map V.declaration := V.get?_declared _ _
    unfold Site.opened?
    dsimp only [bind, Option.bind]
    rw [found]
    cases site.unit.declared.get? target.2 <;> rfl

namespace Sees

variable {V : View} (found : Context → List Occurrence)
variable {body body' : Site → Compile Code}

theorem declareNamespace (site : Site) (kind : NamespaceKind) (path : Path) (runs : Bool)
    (span : Span)
    (isBody : ∀ site, V.Shows (body site) (body' (V.site site)) (found site.context)) :
    V.Shows (StackCode.declareNamespace site kind path runs span body)
      (StackCode.declareNamespace (V.site site) kind path runs (V.span span) body')
      (⟨.namespace kind, site.context, span⟩ ::
        found (.inNamespace kind (site.context.permits (.namespace kind)))) := by
  refine checked (.namespace kind) site span ?_
  generalize site.context.permits (.namespace kind) = legal
  dsimp only
  rw [lookup_site, opened?_site]
  have nesting : (V.site site).nesting = site.nesting := rfl
  have fullName : (V.site site).fullName = site.fullName := rfl
  rw [nesting, fullName]
  generalize (declarationTarget site.nesting site.unit.lookup path).toOption = target
  generalize (target.map Prod.snd).getD site.fullName = fullName
  generalize site.opened? kind target = opened
  -- The namespace is recorded only where it may stand and is the unit's; the rest is the same.
  rcases opened with _ | ⟨parent, fullName', name⟩ <;> cases legal
  case' some.true =>
    refine (recordNamespace ⟨fullName', parent, name, kind, span⟩).bind fun _ => ?_
  all_goals
    refine (inFunction false _ (isBody _).anywhere).last fun made => ?_
    obtain ⟨code, frame⟩ := made
    dsimp only
    rw [← V.span_ending, ← V.code_plain, ← V.code_append, V.span_ending, finish_ret]
    refine ite ?_ nothing
    exact (getConst fullName span).bind fun _ => (loadValue (.function _) span).map (by simp)

theorem declareMethod (site : Site) (name : String) (params : List Parameter) (span : Span)
 {found : List Occurrence}
    (isBody : V.Sees V.code (body site.inBody) (body' (V.site site.inBody)) found (· = .new)) :
    V.Sees id (StackCode.declareMethod site name params span body)
      (StackCode.declareMethod (V.site site) name (mapParams V.span params) (V.span span) body')
      (⟨.method, site.context, span⟩ :: found) := by
  unfold StackCode.declareMethod
  rw [requiredCount_mapParams, optionalCount_mapParams]
  refine checked .method site span (read.bind fun s => ?_)
  generalize site.context.permits .method = legal
  have target : (V.site site).definitionTarget? = site.definitionTarget? := rfl
  have ivars : (V.state s).current.ivars = s.current.ivars := rfl
  rw [target, ivars]
  dsimp only [id]
  generalize (if legal = true then site.definitionTarget? else none) = target
  refine (inFunction false _ isBody).last fun made => ?_
  cases target with
  | none => exact pure rfl
  | some target =>
    obtain ⟨code, frame⟩ := made
    dsimp only
    rw [finish_ret]
    exact defineMethod target name _ span

theorem makeClosure (site : Site) (params : List Parameter) (span : Span)
 {found : List Occurrence}
    (isBody : V.Sees V.code (body site.inBody) (body' (V.site site.inBody)) found (· = .new)) :
    V.Shows (StackCode.makeClosure site params span body)
      (StackCode.makeClosure (V.site site) (mapParams V.span params) (V.span span) body')
        found := by
  unfold StackCode.makeClosure
  rw [requiredCount_mapParams, optionalCount_mapParams]
  refine read.bind fun s => (inFunction true _ isBody).last fun made => ?_
  obtain ⟨code, frame⟩ := made
  dsimp only
  rw [finish_ret]
  exact (addConstant (.function _) span).map fun _ => (V.code_one span _).symm

theorem singletonBlock (site : Site) (span : Span)
    (isBody : ∀ site, V.Shows (body site) (body' (V.site site)) (found site.context)) :
    V.Shows (StackCode.singletonBlock site span body)
      (StackCode.singletonBlock (V.site site) (V.span span) body')
      (⟨.singleton, site.context, span⟩ :: found site.context.inBlock) :=
  checked .singleton site span (inScope span (isBody _))

end Sees

/-! ## Expressions and statements -/

theorem value_staticLiteral (e : Expr) (v : Value) (is : staticLiteral? e = some v) :
    V.value v = v ∧ e.occurrences = [] := by
  cases e with
  | literal span literal =>
    cases literal with
    | bool flag => cases is
    | nil | int _ | float _ | string _ | symbol _ =>
      cases is
      exact ⟨rfl, rfl⟩
  | _ => cases is

namespace Sees

variable {V : View} {found found' : List Occurrence}

theorem stmt_next {next next' : Bool → Bool → Code → Compile Code} {m m' : Compile Code}
    {site : Site}
    {s : Stmt} {returned warned : Bool} {code code' : Code} (same : code' = V.code code)
    (isStmt : V.Shows (compileStmt site s)
      (compileStmt (V.site site) (s.mapSpans V.span)) found)
    (isRest : ∀ returned warned {code code'}, code' = V.code code →
      V.Shows (next returned warned code) (next' returned warned code') found')
    (is : m = do
      let isLate := returned && !warned && s.producesCode
      if isLate then Compile.warnUnreachable site s.span
      let more ← compileStmt site s
      next (returned || s.isReturn) (warned || isLate) (code ++ more))
    (is' : m' = do
      let isLate := returned && !warned && (s.mapSpans V.span).producesCode
      if isLate then Compile.warnUnreachable (V.site site) (s.mapSpans V.span).span
      let more ← compileStmt (V.site site) (s.mapSpans V.span)
      next' (returned || (s.mapSpans V.span).isReturn) (warned || isLate) (code' ++ more)) :
    V.Shows m m' (found ++ found') := by
  rw [is, is', Stmt.producesCode_mapSpans, Stmt.span_mapSpans, Stmt.isReturn_mapSpans]
  exact warnThen site s.span (isStmt.seq fun _ => isRest _ _ (by simp [same]))

theorem function {site : Site} {span : Span} {params : List Parameter} {body : List Stmt}
    (areDefaults : ∀ slots, V.Shows (compileDefaults site #[] params slots)
      (compileDefaults (V.site site) #[] (mapParams V.span params) slots)
      (Expr.defaultOccurrences (placed params slots)))
    (isBlock : ∀ {code code'}, code' = V.code code →
      V.Shows (compileBlock site span false false code body)
        (compileBlock (V.site site) (V.span span) false false code' (mapStmts V.span body)) found) :
    V.Sees V.code
      (do let slots ← StackCode.declareParams .empty false #[] params
          let code ← compileDefaults site #[] params slots
          compileBlock site span false false code body)
      (do let slots ← StackCode.declareParams .empty false #[] (mapParams V.span params)
          let code ← compileDefaults (V.site site) #[] (mapParams V.span params) slots
          compileBlock (V.site site) (V.span span) false false code
            (mapStmts V.span body)) (Expr.defaultOccurrences params ++ found) (· = .new) := by
  refine (declareParams params .empty false #[]).anywhere.follow
    (w := fun slots => Expr.defaultOccurrences (placed params slots) ++ found) (fun s =>
    (areDefaults _).seq fun _ => isBlock rfl) fun s fresh fits => ?_
  have kept := fun seen seenOptional slots params =>
    (Sees.declareParams (V := V) params seen seenOptional slots).full
  have within : s.current.scopes.Within .empty := by
    simp [fresh, ScopeStack.Within, ScopeStack.lookup?, ScopeStack.new]
  rcases declareParams_placed params kept false #[] within with full | ⟨slots, made, all⟩
  · exact absurd full fits
  · rw [made]
    simp [all]

mutual

theorem expr (site : Site) : ∀ e : Expr,
    V.Shows (compileExpr site e)
      (compileExpr (V.site site) (e.mapSpans V.span)) e.occurrences
  | .literal span value => loadLiteral value span
  | .self span => pure (V.code_plain span _).symm
  | .sequence span kind items => by
    cases kind <;>
      rw [Expr.mapSpans, compileExpr, compileExpr, length_mapExprs] <;>
      exact (exprs site items V.code_empty.symm).last fun _ =>
        (indexed _ items.length span).map (by simp)
  | .map span entries => by
    rw [Expr.mapSpans, compileExpr, compileExpr, length_mapEntries]
    exact (pairs site entries V.code_empty.symm).last fun _ =>
      (indexed _ entries.length span).map (by simp)
  | .local span name => getVariable name span
  | .ivar span name => getIvar name site span
  | .constant span path => getPath path site span
  | .assign span (.local name) operator value =>
    assignVariable name operator span (expr site value)
  | .assign span (.ivar name) operator value =>
    assignIvar site name operator span (expr site value)
  | .binary span operator left right =>
    (expr site left).seq fun _ => (expr site right).map (by simp)
  | .unary span operator operand => (expr site operand).map (by simp)
  | .logical span .and left right =>
    shortCircuit .whenFalseKeep span (expr site left) (expr site right)
  | .logical span .or left right =>
    shortCircuit .whenTrueKeep span (expr site left) (expr site right)
  | .block span body => inScope span (block site.inBody span body false false V.code_empty.symm)
  | .conditional span condition thenBranch elseBranch =>
    conditional span (expr site condition)
      (inScope span (block site.inBody span thenBranch false false V.code_empty.symm))
      (elseBlock site span elseBranch)
  | .switch span subject cases elseBranch => by
    rw [Expr.mapSpans, compileExpr, compileExpr]
    refine inScope span ?_
    refine (expr site subject).seq fun value => ?_
    refine (declareHidden "switch subject" span).bind fun slot => ?_
    cases slot
    case' none => refine Sees.bind nothing fun store => ?_
    case' some slot => refine (indexed .setLocal slot span).bind fun store => ?_
    all_goals
      refine (caseArms site _ cases (by simp)).seq fun arms => ?_
      refine (elseBlock site span elseBranch).last fun elseBranch => ?_
      exact (switch span arms elseBranch).map (by simp)
  | .closure span params body =>
    makeClosure site params span (function (fun slots => defaults site.inBody params slots
      V.code_empty.symm) (block site.inBody span body false false))
  | .methodCall span receiver name arguments => by
    rw [Expr.mapSpans, compileExpr, compileExpr, length_mapExprs]
    refine (expr site receiver).seq fun receiver => ?_
    refine (exprs site arguments rfl).last fun _ => ?_
    exact (send .method name arguments.length span).map (by simp)
  | .selfCall span name arguments => by
    rw [Expr.mapSpans, compileExpr, compileExpr, length_mapExprs]
    exact (exprs site arguments V.code_empty.symm).last fun _ =>
      (send .self name arguments.length span).map (by simp)
  | .call span callee arguments => by
    rw [Expr.mapSpans, compileExpr, compileExpr, length_mapExprs]
    refine (expr site callee).seq fun callee => ?_
    refine (exprs site arguments rfl).last fun _ => ?_
    exact (argumentCount arguments.length span).map (by simp)
  | .subscript span receiver index =>
    (expr site receiver).seq fun _ => (expr site index).map (by simp)
  | .new span className arguments => by
    rw [Expr.mapSpans, compileExpr, compileExpr, length_mapExprs]
    refine (getPath className site span).bind fun className => ?_
    refine (exprs site arguments rfl).last fun _ => ?_
    exact (argumentCount arguments.length span).map (by simp)
  | .raise span error => (expr site error).map (by simp)

theorem exprs (site : Site) : ∀ (es : List Expr) {code code' : Code}, code' = V.code code →
    V.Shows (compileExprs site code es)
      (compileExprs (V.site site) code' (mapExprs V.span es)) (Expr.allOccurrences es)
  | [], _, _, same => pure same
  | e :: rest, _, _, same =>
    (expr site e).seq fun _ => exprs site rest (by simp [same])

theorem pairs (site : Site) :
    ∀ (entries : List (Expr × Expr)) {code code' : Code}, code' = V.code code →
      V.Shows (compileEntries site code entries)
        (compileEntries (V.site site) code' (mapEntries V.span entries))
          (Expr.entryOccurrences entries)
  | [], _, _, same => pure same
  | (key, value) :: rest, _, _, same =>
    (expr site key).seq fun _ => (expr site value).seq fun _ =>
      pairs site rest (by simp [same])

theorem elseBlock (site : Site) (span : Span) : ∀ block : Option (List Stmt),
    V.Shows (compileElse site span block)
      (compileElse (V.site site) (V.span span) (mapBlock V.span block)) (Stmt.elseOccurrences block)
  | none => pure (V.code_plain span _).symm
  | some body => inScope span (block site.inBody span body false false V.code_empty.symm)

theorem caseArms (site : Site) (slot : Option Nat) :
    ∀ (cases : List SwitchCase) {arms arms' : Array Compile.Arm}, arms' = arms.map V.arm →
      V.Sees (List.map V.arm) (compileCases site slot arms cases)
        (compileCases (V.site site) slot arms' (mapCases V.span cases)) (Stmt.caseOccurrences cases)
  | [], _, _, same => pure (by simp [same])
  | ⟨pattern, body, span⟩ :: rest, _, _, same => by
    have made := block site.inBody span body false false V.code_empty.symm
    cases slot with
    | some slot =>
      exact (arm span (patternTest pattern slot false) made).seq fun _ =>
        caseArms site (some slot) rest (by simp [same])
    | none =>
      exact (arm span (pure (V.code_plain span _).symm) made).seq fun _ =>
        caseArms site none rest (by simp [same])

theorem defaults (site : Site) : ∀ (params : List Parameter) (slots : List (Option Nat))
    {code code' : Code}, code' = V.code code →
      V.Shows (compileDefaults site code params slots)
        (compileDefaults (V.site site) code' (mapParams V.span params) slots)
        (Expr.defaultOccurrences (placed params slots))
  | [], _, _, _, same => pure same
  | ⟨_, none, _, _⟩ :: _, [], _, _, same => pure same
  | ⟨_, some _, _, _⟩ :: _, [], _, _, same => pure same
  | ⟨_, none, _, _⟩ :: params, none :: slots, _, _, same => defaults site params slots same
  | ⟨_, none, _, _⟩ :: params, some _ :: slots, _, _, same => defaults site params slots same
  | ⟨_, some _, _, _⟩ :: params, none :: slots, _, _, same => defaults site params slots same
  | ⟨_, some value, _, span⟩ :: params, some slot :: slots, _, _, same =>
    (defaultValue slot span (expr site value)).seq fun _ =>
      defaults site params slots (by simp [same])

theorem block (site : Site) (span : Span) :
    ∀ (ss : List Stmt) (returned warned : Bool) {code code' : Code}, code' = V.code code →
      V.Shows (compileBlock site span returned warned code ss)
        (compileBlock (V.site site) (V.span span) returned warned code' (mapStmts V.span ss))
        (Stmt.allOccurrences site.context ss)
  | [], _, _, _, _, same => pure (by simp [same])
  | s :: rest, returned, warned, code, code', same => by
    cases s with
    | expression last value =>
      cases rest with
      | nil =>
        rw [mapStmts, mapStmts, Stmt.mapSpans, compileBlock, compileBlock]
        exact warnThen site last ((expr site value).seq fun _ => pure (by simp [same]))
      | cons next rest =>
        exact stmt_next same (stmt site _) (block site span _) rfl rfl
    | _ => exact stmt_next same (stmt site _) (block site span _) rfl rfl

theorem stmts (site : Site) :
    ∀ (ss : List Stmt) (returned warned : Bool) {code code' : Code}, code' = V.code code →
      V.Shows (compileStmts site returned warned code ss)
        (compileStmts (V.site site) returned warned code' (mapStmts V.span ss))
        (Stmt.allOccurrences site.context ss)
  | [], _, _, _, _, same => pure same
  | s :: rest, _, _, _, _, same =>
    stmt_next same (stmt site s) (stmts site rest) rfl rfl

theorem optionalExpr (site : Site) (span : Span) : ∀ e : Option Expr,
    V.Shows (compileOptional site span e)
      (compileOptional (V.site site) (V.span span) (mapExpr V.span e)) (Expr.optionalOccurrences e)
  | none => pure (V.code_plain span _).symm
  | some value => expr site value

theorem stmt (site : Site) : ∀ s : Stmt,
    V.Shows (compileStmt site s)
      (compileStmt (V.site site) (s.mapSpans V.span)) (s.occurrences site.context)
  | .expression span value => by
    rw [Stmt.mapSpans, compileStmt, compileStmt, Expr.isPure_mapSpans, Expr.span_mapSpans]
    refine (expr site value).last fun code => ?_
    have last : V.Shows (return code ++ Code.plain span .pop)
        (return V.code code ++ Code.plain (V.span span) .pop) := pure (by simp)
    exact ite ((warnUnused site value.span).bind fun _ => last) last
  | .ret span value => (optionalExpr site span value).map (by simp)
  | .loop span condition body =>
    loop span (expr site condition)
      (inScope span (stmts site.inBody body false false V.code_empty.symm))
  | .variable span name mutable _ none =>
    (declareLocal name mutable span).bind fun _ => nothing
  | .variable span name mutable _ (some initializer) =>
    (expr site initializer).last fun _ => (bindLocal name mutable span).map (by simp)
  | .patternVariable span pattern mutable initializer =>
    patternDeclaration pattern mutable span (expr site initializer)
  | .constant span name _ value => by
    rw [Stmt.mapSpans, compileStmt, compileStmt, staticLiteral?_mapSpans, Expr.span_mapSpans]
    exact defineConstant site name _ value.span span (V.value_staticLiteral value) (expr site value)
  | .namespace span kind path _ body => by
    rw [Stmt.mapSpans, compileStmt, compileStmt, Stmt.anyRunsAtDeclaration_mapStmts]
    exact declareNamespace (Stmt.allOccurrences · body) site kind path _ span fun site =>
      stmts site body false false V.code_empty.symm
  | .singleton span body => by
    rw [Stmt.mapSpans, compileStmt, compileStmt]
    exact singletonBlock (Stmt.allOccurrences · body) site span fun site =>
      stmts site body false false V.code_empty.symm
  | .method span name params body =>
    (declareMethod site name params span (function (fun slots => defaults site.inBody params slots
      V.code_empty.symm) (block site.inBody span body false false))).last fun _ => nothing
  | .signature span _ _ => (checkDeclaration .signature site span).last fun _ => nothing
  | .attribute span kind entries =>
    (defineAttributes kind entries site span).last fun _ => nothing
  | .aliases span entries => (defineAliases entries site span).last fun _ => nothing
  | .ivar span _ _ => (checkDeclaration .ivar site span).last fun _ => nothing
  | .include span _ => (checkDeclaration .include site span).last fun _ => nothing
  | .using span entries => (useImports entries site span).bind fun _ => nothing

end

/-! ## What runs before the statements -/

theorem createNamespace (record : NamespaceRecord) :
    V.Shows (StackCode.createNamespace record) (StackCode.createNamespace (V.record record)) :=
  (getConst record.parent record.span).bind fun _ =>
    (loadSymbol record.name record.span).map fun _ => by
      simp [View.record]

theorem linkSuperclass : V.SeesFor V.declaration V.code StackCode.linkSuperclass := by
  intro ns span
  have superclass : (V.declaration ns).superclass = ns.superclass := rfl
  unfold StackCode.linkSuperclass
  rw [superclass]
  cases ns.superclass with
  | none => exact nothing
  | some superclass =>
    refine ite ?_ nothing
    exact (getConst ns.fullName span).bind fun _ => (getConst superclass span).map (by simp)

theorem linkMixin (fullName : String) (span : Span) (mixin : String) :
    V.Shows (StackCode.linkMixin fullName span mixin)
      (StackCode.linkMixin fullName (V.span span) mixin) :=
  (getConst fullName span).bind fun _ => (getConst mixin span).map (by simp)

theorem sequence {f : α → β} {step : α → Compile Code} {step' : β → Compile Code}
    (each : ∀ a, V.Shows (step a) (step' (f a))) (items : List α) :
    V.Shows (StackCode.sequence step items) (StackCode.sequence step' (items.map f)) :=
  foldCode f each items V.code_empty.symm

theorem linkNamespace (ns : DeclaredNamespace) :
    V.Shows (StackCode.linkNamespace ns) (StackCode.linkNamespace (V.declaration ns)) := by
  unfold StackCode.linkNamespace
  rw [superclassSpan_declaration]
  refine (linkSuperclass ns _).bind fun superclass => ?_
  exact (foldSame (linkMixin ns.fullName _) ns.mixins).map (by simp)

theorem definitions (name : String) (unit : UnitInfo) (span : Span) {body body' : Compile Code}
    (isBody : V.Shows body body') :
    V.Sees V.function (StackCode.definitions name unit span body)
      (StackCode.definitions name (V.unit unit) (V.span span) body') := by
  refine (inFunction false .forbidden isBody.anywhere).bind fun made => pure ?_
  rw [← V.code_plain, ← V.code_plain, ← V.code_append, ← V.code_append]
  exact V.finish made.2 name unit.options.file span 0 0 _

theorem namespaceDefinitions :
    V.SeesFor V.unit (Option.map V.function) StackCode.namespaceDefinitions := by
  intro unit span
  refine read.bind fun s => ?_
  have known : ∀ fullName, (V.state s).records.contains fullName = s.records.contains fullName :=
    contains_map _ _
  have recorded : (V.unit unit).declared.namespaces.toValues.filter
      (fun ns => (V.state s).records.contains ns.fullName) =
        (unit.declared.namespaces.toValues.filter
          fun ns => s.records.contains ns.fullName).map V.declaration := by
    show ((unit.declared.namespaces.map V.declaration).toValues.filter _) = _
    rw [toValues_map, List.filter_map]
    simp only [known]
    rfl
  have created : (V.state s).records.toValues = s.records.toValues.map V.record :=
    toValues_map _ _
  have size : (V.state s).records.size = s.records.size := rfl
  dsimp only
  rw [recorded, created, size]
  refine ite (pure rfl) ((definitions _ unit span ?_).map fun _ => rfl)
  exact (sequence createNamespace _).bind fun _ => (sequence linkNamespace _).map (by simp)

theorem registerLayout (unit : UnitInfo) (span : Span) (change : LayoutChange) :
    V.Shows (StackCode.registerLayout unit span change)
      (StackCode.registerLayout (V.unit unit) (V.span span) change) := by
  have layouts : (V.unit unit).layouts = unit.layouts := rfl
  have place : (((V.unit unit).declared.get? change.fullName).map DeclaredNamespace.span).getD
      (V.span span) =
        V.span (((unit.declared.get? change.fullName).map DeclaredNamespace.span).getD span) := by
    show (((V.declared unit.declared).get? change.fullName).map DeclaredNamespace.span).getD _ = _
    rw [get?_declared]
    cases unit.declared.get? change.fullName <;> rfl
  unfold StackCode.registerLayout
  rw [layouts, place]
  cases unit.layouts.table? change.fullName change.singleton with
  | none => exact nothing
  | some table =>
    refine (getConst change.fullName _).bind fun owner => ?_
    refine (loadValue (.ivars table) _).map fun _ => ?_
    cases change.singleton <;> simp

theorem ivarDefinitions :
    V.SeesFor V.unit (Option.map V.function) StackCode.ivarDefinitions := fun unit span =>
  ite (pure rfl)
    ((definitions _ unit span (foldSame (registerLayout unit span) _)).map fun _ => rfl)

theorem memberDefinitions :
    V.SeesFor V.unit (Option.map V.function) StackCode.memberDefinitions := by
  intro unit span
  refine read.bind fun s => ?_
  have empty : (V.state s).members.code.isEmpty = s.members.code.isEmpty := V.isEmpty_code _
  dsimp only
  rw [empty]
  refine ite (pure rfl) (pure (congrArg some ?_))
  show (V.frame { Frame.new false .forbidden with pool := s.members.pool }).finish _
    (V.file unit.options.file) (V.span span) 0 0 (V.code s.members.code ++ _ ++ _) = _
  rw [← V.span_ending, ← V.code_plain, ← V.code_plain, ← V.code_append, ← V.code_append]
  exact V.finish _ _ _ span 0 0 _

theorem hoisted : V.SeesFor V.unit (List.map V.function) StackCode.hoisted := by
  intro unit span
  refine (namespaceDefinitions unit span).bind fun namespaces => ?_
  refine (ivarDefinitions unit span).bind fun ivars => ?_
  refine (memberDefinitions unit span).map fun members => ?_
  cases namespaces <;> cases ivars <;> cases members <;> rfl

theorem runHoisted (span : Span) (f : CompiledFunction) :
    V.Shows (StackCode.runHoisted span f)
      (StackCode.runHoisted (V.span span) (V.function f)) :=
  (loadValue (.function f) span).map (by simp)

theorem prologue : V.SeesFor V.unit V.code StackCode.prologue := fun unit span =>
  (hoisted unit span).bind fun functions => sequence (runHoisted span) functions

theorem compileProgram (unit : UnitInfo) (program : Program) :
    V.Shows (StackCode.compileProgram unit program)
      (StackCode.compileProgram (V.unit unit) (program.mapSpans V.span)) program.occurrences := by
  refine (Sees.stmts ⟨unit, [rootName], .topLevel⟩ program.statements false false
    V.code_empty.symm).last fun body => (prologue unit program.span).map fun first => ?_
  show V.code first ++ V.code body ++ Code.plain (V.span program.span).ending .pushNil ++
    Code.plain (V.span program.span).ending .ret = _
  rw [← V.span_ending]
  simp

end Sees

end View

end StackCode
