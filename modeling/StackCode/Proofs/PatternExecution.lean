import StackCode.Proofs.CorePrograms
import StackCode.Proofs.OperandStack

/-!
# Running the code of patterns

Wherever a pattern is compiled, its code does on the machine what matching a datum means. The
variables are those of the open scopes (`ScopeStack.visible`), those that a pattern binds are the
ones that its scope got (`ScopeStack.declaredSince`), and slots hold values (`Holding`). The code
may stand anywhere in a function that has the constants it was made with (`Placed`).
-/

namespace StackCode

open List

/-! ## Variables of a state -/

namespace ScopeStack

/-- The variables with a name, innermost and latest first. -/
def visible (s : ScopeStack) : List Binding :=
  (s.scopes.flatMap Scope.bindings).filter fun b => !b.hidden

/-- The bindings of the innermost scope. -/
def innermost (s : ScopeStack) : List Binding := (s.scopes.head?.map Scope.bindings).getD []

/-- The variables with a name that the innermost scope got since an earlier state, in the order of
their declarations. -/
def declaredSince (earlier s : ScopeStack) : List Binding :=
  ((s.innermost.take (s.innermost.length - earlier.innermost.length)).filter
    fun b => !b.hidden).reverse

end ScopeStack

/-- Variables have the names and, in their slots, the values of some bindings. -/
def Holding (locals : List Datum) (visible : List Binding) (bindings : Bindings) : Prop :=
  List.Forall₂ (fun b binding => b.name = binding.1 ∧ locals.getD b.slot .nil = binding.2)
    visible bindings

section Variables

variable {mentions : List Local} {locals : List Datum} {bindings : Bindings}

theorem kept_iff_holding {visible : List Binding} {live : List Local}
    (each : Forall₂ (BindingOf mentions) visible live) :
    Kept locals live bindings ↔ Holding locals (visible.filter fun b => !b.hidden) bindings := by
  induction each generalizing bindings with
  | nil =>
    constructor
    · rintro ⟨⟩
      exact .nil
    · rintro ⟨⟩
      exact .nil
  | @cons b l visible live bindingOf _ ih =>
    have isName := bindingOf.name
    cases hidden : b.hidden with
    | true =>
      rw [hidden, if_pos rfl] at isName
      rw [filter_cons_of_neg (by simp [hidden]), ← ih]
      constructor
      · rintro (_ | ⟨named⟩ | ⟨_, others⟩)
        · cases isName.symm.trans named
        · exact others
      · exact .unnamed isName
    | false =>
      rw [hidden, if_neg (by decide)] at isName
      rw [filter_cons_of_pos (by simp [hidden])]
      constructor
      · rintro (_ | ⟨named, isValue, others⟩ | ⟨unnamed, _⟩)
        · cases isName.symm.trans named
          exact .cons ⟨rfl, bindingOf.slot ▸ isValue⟩ (ih.1 others)
        · cases isName.symm.trans unnamed
      · rintro ⟨⟩
        rename_i same others
        exact .named (isName.trans (congrArg some same.1)) (bindingOf.slot ▸ same.2) (ih.2 others)

theorem ScopesOf.innermost {s : ScopeStack} {live : List (List Local)}
    (scopesOf : ScopesOf mentions s.scopes live) :
    Forall₂ (BindingOf mentions) s.innermost (live.headD []) := by
  obtain ⟨scopes, watermark, highWater⟩ := s
  cases scopesOf with
  | nil => exact .nil
  | cons bindings _ _ => exact bindings

end Variables

/-! ## Places in the text -/

section Places

variable {s s' : CompileState} {env env' : Env} {t t' : Progress}

theorem FramesOf.id_lt {mentions : List Local} {bound : Nat} {frames : List Frame}
    {levels : List Level} (framesOf : FramesOf mentions bound frames levels) {level : Level}
    (member : level ∈ levels) {l : Local} (inside : l ∈ level.locals) : l.id < bound := by
  induction framesOf with
  | nil => cases member
  | cons head _ ih =>
    rcases mem_cons.1 member with rfl | outer
    · exact (head.own l inside).2
    · exact Nat.lt_of_lt_of_le (ih outer) head.first

theorem Tracks.settled (tracks : Tracks s env t) (mentions : List Local) :
    env.Settled (env.here.captured mentions) t where
  laid := tracks.head.scopes.laid
  first := tracks.head.first
  own l member := (tracks.head.own l member).1
  outer _ member _ inside := tracks.tail.id_lt member inside
  captured _ member := Level.id_lt_of_mem_captured member
  noted := tracks.noted

theorem Tracks.watermark (tracks : Tracks s env t) :
    s.current.scopes.watermark - 1 = env.live.length := by
  rw [tracks.head.scopes.watermark]
  rfl

theorem Tracks.exists_slot (tracks : Tracks s env t) {slot : Nat} (positive : 1 ≤ slot)
    (low : slot < s.current.scopes.watermark) : ∃ l ∈ env.live, l.slot = slot := by
  have low' : slot ≤ env.live.length := by
    have := tracks.watermark
    omega
  have laid : Laid env.live := tracks.head.scopes.laid
  generalize env.live = live at laid low'
  clear low
  induction live with
  | nil => exact absurd positive (by simpa using low')
  | cons l rest ih =>
    rw [length_cons] at low'
    by_cases last : slot = rest.length + 1
    · exact ⟨l, mem_cons_self, laid.1.trans last.symm⟩
    · obtain ⟨found, member, isSlot⟩ := ih laid.2 (by omega)
      exact ⟨found, mem_cons_of_mem l member, isSlot⟩

theorem Tracks.declaredSince (tracks : Tracks s env t) (tracks' : Tracks s' env' t')
    (behind : env.Extends env') {own : List Local} (grown : env'.live = own ++ env.live)
    {locals : List Datum} {parts : Bindings} (kept : Kept locals own parts.reverse) :
    Holding locals (s.current.scopes.declaredSince s'.current.scopes) parts := by
  have before := tracks.head.scopes.scopes.innermost
  have after := tracks'.head.scopes.scopes.innermost
  -- The innermost scope has the new variables before the ones that it had.
  have split (scopes : List (List Local)) : scopes.flatten = scopes.headD [] ++
      scopes.tail.flatten := by
    cases scopes <;> rfl
  have grownScope : env'.here.scopes.headD [] = own ++ env.here.scopes.headD [] := by
    have flat : env'.here.scopes.flatten = own ++ env.here.scopes.flatten := grown
    rw [split env'.here.scopes, split env.here.scopes, behind.scopes, ← List.append_assoc] at flat
    exact append_cancel_right flat
  rw [grownScope] at after
  have count : s'.current.scopes.innermost.length - s.current.scopes.innermost.length =
      own.length := by
    rw [after.length_eq, before.length_eq, length_append]
    omega
  have holding := (kept_iff_holding (forall₂_take_append _ _ _ after)).1 kept
  rw [ScopeStack.declaredSince, count]
  have reversed := rel_reverse holding
  rwa [reverse_reverse] at reversed

end Places

/-! ## Code that stands in a function -/

/-- A piece of code stands at a place of a function, which has the constants that there were when
the piece was made. -/
structure Placed (f : CompiledFunction) (place : Nat) (code : Code) (s : CompileState) : Prop where
  stands : StandsAt f place code.instrs
  constants : s.current.pool.values.toList <+: f.constants

/-- What a function has where a state is. -/
def CompiledFunction.worldAt (f : CompiledFunction) (s : CompileState) (captured : List Local) :
    World :=
  ⟨f.constants, captured, s.current.scopes.localCount⟩

section Code

variable {s s' : CompileState} {env env' : Env} {t t' : Progress} {f : CompiledFunction}
  {place : Nat}
  {code : Code}

theorem Placed.world_le (placed : Placed f place code s) (behind : env.Extends env') :
    worldOf s env' t ≤ f.worldAt s (env.here.captured t.mentions) :=
  ⟨placed.constants, by rw [worldOf, behind.captured]; exact prefix_refl _, Nat.le_refl _⟩

theorem Placed.comes (placed : Placed f place code s) {captured : List Local} {start stop : Nat}
    {flow : Flow Op} (coded : Coded (f.worldAt s captured) start stop flow code)
    {ops : Operators} {memory : Memory} {exit : Exit} (does : Does ops captured flow memory exit) :
    exit.Comes ops f ⟨place, memory⟩ (place + codeSize code.instrs)
      (place + codeSize code.instrs + 0) :=
  Codes.comes (W := f.worldAt s captured) rfl does (coded.codes 0) placed.stands

/-- **The code of a test pushes whether a datum matches**, and leaves its parts in the slots of the
variables that the pattern binds. -/
theorem patternTest_leads (inText : s.InText) {pattern : Pattern} {slot : Nat} {mutable : Bool}
    (positive : 1 ≤ slot) (inUse : slot < s.current.scopes.watermark)
    (clean : ¬Failed (Compile.patternTest pattern slot mutable s).2.issues)
    (placed : Placed f place (Compile.patternTest pattern slot mutable s).1
      (Compile.patternTest pattern slot mutable s).2)
    (sized : pattern.isSized) {locals : List Datum} (sizedV : (locals.getD slot .nil).isSized)
    (stack : List Datum) :
    let v := locals.getD slot .nil
    let made := Compile.patternTest pattern slot mutable s
    ∃ locals', Machine.Leads .onIntegers f ⟨place, locals, stack⟩
        ⟨place + codeSize made.1.instrs, locals', .bool (pattern.parts? v).isSome :: stack⟩ ∧
      Unchanged (s.current.scopes.watermark - 1) locals locals' ∧
      ∀ parts, pattern.parts? v = some parts →
        Holding locals' (s.current.scopes.declaredSince made.2.current.scopes) parts := by
  obtain ⟨env, t, tracks⟩ := inText
  obtain ⟨l, isLive, rfl⟩ := tracks.exists_slot positive inUse
  obtain ⟨tracks', behind, coded⟩ :=
    (Builds.patternTest (P := fun _ => l ∈ env.live) pattern mutable
    fun _ live => live).holds s t tracks (fun _ _ => isLive) clean
  obtain ⟨-, -, -, tests⟩ := pattern.flow_along isLive t
    (tracks.settled (pattern.flow env l t).2.mentions)
  obtain ⟨own, locals', unchanged, does, bound⟩ := tests locals _ rfl sized sizedV
  refine ⟨locals', placed.comes (coded _ (placed.world_le behind.env)) (does stack), ?_, ?_⟩
  · rwa [tracks.watermark]
  · intro parts isParts
    obtain ⟨grown, kept⟩ := bound parts isParts
    exact tracks.declaredSince tracks' behind.env grown kept

/-- **The code of a declaration takes a value apart**, behind the code that pushes it: it goes on
with the parts in the slots of the variables, or throws an error if the value does not match. -/
theorem patternVariable_comes (inText : s.InText) {site : Site} {span : Span} {pattern : Pattern}
    {mutable : Bool} {initializer : Expr}
    (clean : ¬Failed (compileStmt site (.patternVariable span pattern mutable initializer)
      s).2.issues)
    (placed : Placed f place
      (compileStmt site (.patternVariable span pattern mutable initializer) s).1
      (compileStmt site (.patternVariable span pattern mutable initializer) s).2)
    (sized : pattern.isSized) :
    let first := compileExpr site initializer s
    let made := compileStmt site (.patternVariable span pattern mutable initializer) s
    (∃ behind, made.1 = first.1 ++ behind) ∧
      ∀ (locals : List Datum) (v : Datum) (stack : List Datum), v.isSized →
      let m : Machine := ⟨place + codeSize first.1.instrs, locals, v :: stack⟩
      (∀ parts, pattern.parts? v = some parts → ∃ locals',
        Machine.Leads .onIntegers f m ⟨place + codeSize made.1.instrs, locals', stack⟩ ∧
          Unchanged (first.2.current.scopes.watermark - 1) locals locals' ∧
          Holding locals' (first.2.current.scopes.declaredSince made.2.current.scopes) parts) ∧
      (pattern.parts? v = none →
        Machine.Ends .onIntegers f m (.thrown (mismatch mutable))) := by
  obtain ⟨env, t, tracks⟩ := inText
  -- The state behind the value, and what takes it apart from there.
  let value := compileExpr site initializer s
  let flow := initializer.flow site env t
  have apart : Builds env (fun _ => True) _ _ Prod.snd _ :=
    Builds.takeApart pattern mutable span value.1 flow.1
  have run : compileStmt site (.patternVariable span pattern mutable initializer) s =
      Builds.takeApartBehind pattern mutable span value.1 value.2 := by
    rw [compileStmt, Builds.patternDeclaration_eq]
    rfl
  rw [run] at clean placed ⊢
  obtain ⟨tracks₁, -, -⟩ := (compileExpr_pushes site initializer fun _ => True).holds s t tracks
    (fun _ _ => trivial) fun early => clean (apart.failed _ early)
  obtain ⟨tracks', behind, pieces⟩ := apart.holds value.2 flow.2 tracks₁ (fun _ _ => trivial) clean
  obtain ⟨-, -, -, takes⟩ := Gen.takeApart_along pattern mutable flow.1 flow.2
    (tracks₁.settled (Gen.takeApart env pattern mutable flow.1 flow.2).2.mentions)
  obtain ⟨stored, tested, thrown, store, test, throw, isCode, isFlow, isStore, isTest, isThrow⟩ :=
    pieces _ (placed.world_le behind.env)
  obtain ⟨store', test', throw', isFlow', takes⟩ := takes
  rw [isFlow'] at isFlow
  simp only [Flow.append_def, Flow.seq.injEq] at isFlow
  obtain ⟨⟨⟨-, rfl⟩, rfl⟩, rfl⟩ := isFlow
  generalize Builds.takeApartBehind pattern mutable span value.1 value.2 = whole at *
  have isWhole : whole.1 = value.1 ++ (stored ++ tested ++ thrown) := by
    simpa only [Array.append_assoc] using isCode
  have instrs : whole.1.instrs = value.1.instrs ++ (stored ++ tested ++ thrown).instrs := by
    rw [isWhole, Code.instrs_append]
  have placed' : Placed f (place + codeSize value.1.instrs) (stored ++ tested ++ thrown)
      whole.2 := by
    have stands : StandsAt f place whole.1.instrs := placed.stands
    rw [instrs] at stands
    exact ⟨stands.right, placed.constants⟩
  have stop : place + codeSize whole.1.instrs =
      place + codeSize value.1.instrs + codeSize (stored ++ tested ++ thrown).instrs := by
    rw [instrs, codeSize_append, Nat.add_assoc]
  have coded := (isStore.append isTest).append isThrow
  refine ⟨⟨_, isWhole⟩, fun locals v stack sizedV => ⟨fun parts isParts => ?_, fun noParts => ?_⟩⟩
  · obtain ⟨own, locals', grown, unchanged, kept, does⟩ :=
      (takes locals v sized sizedV).goesOn parts isParts
    refine ⟨locals', ?_, ?_, tracks₁.declaredSince tracks' behind.env grown kept⟩
    · show Machine.Leads _ f _ ⟨place + codeSize whole.1.instrs, _⟩
      rw [stop]
      exact placed'.comes coded (does stack)
    · show Unchanged (value.2.current.scopes.watermark - 1) locals locals'
      rwa [tracks₁.watermark]
  · exact placed'.comes coded ((takes locals v sized sizedV).throws noParts stack)

/-- How the machine leaves the code of an expression: with its value on the stack and the variables
in their slots, or with the end of the run. -/
def Machine.Yields (f : CompiledFunction) (m : Machine) (stop : Nat) (visible : List Binding) :
    Except Ending (Datum × Bindings) → Prop
  | .ok (v, bindings) => ∃ locals, Holding locals visible bindings ∧
      Machine.Leads .onIntegers f m ⟨stop, locals, v :: m.memory.stack⟩
  | .error result => Machine.Ends .onIntegers f m result

/-- **The code of an expression with patterns yields what the expression evaluates to.** -/
theorem compileExpr_yields (inText : s.InText) {site : Site} {e : Expr} (core : e.isCore true)
    (clean : ¬Failed (compileExpr site e s).2.issues)
    (placed : Placed f place (compileExpr site e s).1 (compileExpr site e s).2)
    {bindings : Bindings} {locals : List Datum}
    (holding : Holding locals s.current.scopes.visible bindings) (stack : List Datum) {rounds : Nat}
    {result : Except Ending (Datum × Bindings)}
    (evaluates : ((e.eval .onIntegers rounds).run bindings).run = some result) :
    Machine.Yields f ⟨place, locals, stack⟩ (place + codeSize (compileExpr site e s).1.instrs)
      s.current.scopes.visible result := by
  obtain ⟨env, t, tracks⟩ := inText
  obtain ⟨-, behind, coded⟩ := (compileExpr_pushes site e fun _ => True).holds s t tracks
    (fun _ _ => trivial) clean
  obtain ⟨-, -, -, follows⟩ := e.along rounds ⟨true, fun _ => rfl⟩ site core t
    (tracks.settled (e.flow site env t).2.mentions)
  have visible := tracks.head.scopes.scopes.bindings
  have agrees := follows bindings locals stack ((kept_iff_holding visible).2 holding) result
    evaluates
  have coded := coded _ (placed.world_le behind.env)
  cases result with
  | error ending => exact placed.comes coded agrees
  | ok made =>
    obtain ⟨locals', kept, does⟩ := agrees
    exact ⟨locals', (kept_iff_holding visible).1 kept, placed.comes coded does⟩

end Code

/-! ## Patterns wherever they stand -/

theorem CompileState.InText.entered {s : CompileState} (inText : s.InText) : s.entered.InText := by
  obtain ⟨env, t, tracks⟩ := inText
  exact ⟨_, _, tracks.entered⟩

theorem CompileState.InText.nested {s : CompileState} (inText : s.InText) (isClosure : Bool)
    (ivars : IvarAccess) : (s.nested isClosure ivars).InText := by
  obtain ⟨env, t, tracks⟩ := inText
  exact ⟨_, _, tracks.nested isClosure ivars⟩

theorem CompileState.InText.declareHidden {s : CompileState} (inText : s.InText) (purpose : String)
    (span : Span) (clean : ¬Failed (Compile.declareHidden purpose span s).2.issues) :
    (Compile.declareHidden purpose span s).2.InText := by
  obtain ⟨env, t, tracks⟩ := inText
  obtain ⟨tracks', -, -⟩ :=
    (Builds.declareHidden (P := fun _ => True) purpose span).holds s t tracks
    (fun _ _ => trivial) clean
  exact ⟨_, _, tracks'⟩

/-- **The code of patterns implements pattern matching**, wherever in a unit they stand: at its
start, behind what is compiled without failures, in scopes and in other functions. A test pushes
whether the datum in a slot matches, and leaves the parts in the slots of the variables that the
pattern binds. A declaration goes on if the value matches, and throws an error otherwise. A switch
yields what it evaluates to: the value of the body of the first case that matches, or else of the
last branch. A unit with patterns runs as it is evaluated. -/
theorem patterns_run :
    (∀ issues, (CompileState.initial issues).InText) ∧
    (∀ s : CompileState, s.InText → s.entered.InText ∧
      (∀ isClosure ivars, (s.nested isClosure ivars).InText) ∧
      (∀ purpose span, ¬Failed (Compile.declareHidden purpose span s).2.issues →
        (Compile.declareHidden purpose span s).2.InText) ∧
      (∀ site e, ¬Failed (compileExpr site e s).2.issues → (compileExpr site e s).2.InText) ∧
      ∀ site stmt, ¬Failed (compileStmt site stmt s).2.issues →
        (compileStmt site stmt s).2.InText) ∧
    (∀ (s : CompileState) (pattern : Pattern) (slot : Nat) (mutable : Bool) (f : CompiledFunction)
      (place : Nat), s.InText → 1 ≤ slot → slot < s.current.scopes.watermark → pattern.isSized →
      let made := Compile.patternTest pattern slot mutable s
      ¬Failed made.2.issues → Placed f place made.1 made.2 →
      ∀ locals stack, (locals.getD slot .nil).isSized →
        let v := locals.getD slot .nil
        ∃ locals', Machine.Leads .onIntegers f ⟨place, locals, stack⟩
            ⟨place + codeSize made.1.instrs, locals', .bool (pattern.parts? v).isSome :: stack⟩ ∧
          Unchanged (s.current.scopes.watermark - 1) locals locals' ∧
          ∀ parts, pattern.parts? v = some parts →
            Holding locals' (s.current.scopes.declaredSince made.2.current.scopes) parts) ∧
    (∀ (s : CompileState) (site : Site) (span : Span) (pattern : Pattern) (mutable : Bool)
      (initializer : Expr) (f : CompiledFunction) (place : Nat), s.InText → pattern.isSized →
      let first := compileExpr site initializer s
      let made := compileStmt site (.patternVariable span pattern mutable initializer) s
      ¬Failed made.2.issues → Placed f place made.1 made.2 →
      (∃ behind, made.1 = first.1 ++ behind) ∧
      ∀ locals v stack, v.isSized →
        let m : Machine := ⟨place + codeSize first.1.instrs, locals, v :: stack⟩
        (∀ parts, pattern.parts? v = some parts → ∃ locals',
          Machine.Leads .onIntegers f m ⟨place + codeSize made.1.instrs, locals', stack⟩ ∧
            Unchanged (first.2.current.scopes.watermark - 1) locals locals' ∧
            Holding locals' (first.2.current.scopes.declaredSince made.2.current.scopes) parts) ∧
        (pattern.parts? v = none → Machine.Ends .onIntegers f m (.thrown (.instance
          "Root::Std::PatternNotMatchedError" [.string (if mutable then
            "assigned value does not match the pattern defined in variable declaration"
            else "assigned value does not match the pattern defined in value declaration")])))) ∧
    (∀ (s : CompileState) (site : Site) (span : Span) (subject : Expr) (cases : List SwitchCase)
      (last : Option (List Stmt)) (f : CompiledFunction) (place : Nat), s.InText →
      (Expr.switch span subject cases last).isCore true →
      let made := compileExpr site (.switch span subject cases last) s
      ¬Failed made.2.issues → Placed f place made.1 made.2 →
      ∀ locals stack bindings rounds result, Holding locals s.current.scopes.visible bindings →
        (((do
          let value ← subject.eval .onIntegers rounds
          Stmt.evalCases .onIntegers rounds value (Stmt.evalElse .onIntegers rounds last) cases :
            Eval Datum)).run bindings).run = some result →
        Machine.Yields f ⟨place, locals, stack⟩ (place + codeSize made.1.instrs)
          s.current.scopes.visible result) ∧
    ∀ (options : Options) (base current : Registry) (program : Program) (f : CompiledFunction)
      (rounds : Nat) (result : Ending), program.isCore true →
      (compileAgainst options base current program).1.function = some f →
      program.eval .onIntegers rounds = some result →
      ∃ enough, ∀ steps ≥ enough, Machine.run .onIntegers f steps .start = some result := by
  refine ⟨CompileState.initial_inText, fun s inText => ⟨inText.entered, inText.nested,
    inText.declareHidden, fun site e clean => (compileExpr_passes site e inText clean).1,
    fun site stmt clean => (compileStmt_passes site stmt inText clean).1⟩, ?_, ?_, ?_, ?_⟩
  · intro s pattern slot mutable f place inText positive inUse sized made clean placed locals stack
      sizedV v
    exact patternTest_leads inText positive inUse clean placed sized sizedV stack
  · intro s site span pattern mutable initializer f place inText sized first made clean placed
    exact patternVariable_comes inText clean placed sized
  · intro s site span subject cases last f place inText core made clean placed locals stack bindings
      rounds result holding evaluates
    have evaluates' : (((Expr.switch span subject cases last).eval .onIntegers rounds).run
        bindings).run = some result := by
      rw [Expr.eval]
      exact evaluates
    exact compileExpr_yields inText core clean placed holding stack evaluates'
  · intro options base current program f rounds result core compiled evaluates
    obtain ⟨⟨room, instrs, assembled⟩, -⟩ := compileAgainst_assembled compiled
    exact (assembled.ends rfl fun locals =>
      Program.scheme_does core (fun _ => rfl) evaluates locals).run

/-- A list that is taken apart, and a switch over the elements between the first and the last. -/
def betweenUnit : Program :=
  let at_ := Span.zero
  let get (name : String) : Expr := .local at_ name
  let number (n : Int64) : Expr := .literal at_ (.int n)
  .ofStatements [
    .patternVariable at_ (.sequence at_ .list [.literal at_ (.int 1), .binding at_ "last"]
      (some ⟨1, some "between"⟩)) false (.sequence at_ .list [number 1, number 2, number 3]),
    .ret at_ (some (.switch at_ (get "between") [
      ⟨.literal at_ (.int 2), [.expression at_ (number 0)], at_⟩,
      ⟨.sequence at_ .list [.binding at_ "x"] none,
        [.expression at_ (.sequence at_ .tuple [get "x", get "last"])], at_⟩] none))]

/-- A function of some code alone. -/
def Code.alone (code : Code) (s : CompileState) : CompiledFunction :=
  ⟨"alone", code.bytes, default, .ofCode code, s.current.pool.values.toList, 0, 0, 0⟩

theorem Code.placed_alone {code : Code} (s : CompileState) (fit : ∀ i ∈ code.instrs, i.Fits) :
    Placed (code.alone s) 0 code s :=
  ⟨⟨[], [], by simpa using ⟨code.toList_bytes, fit⟩, rfl⟩, prefix_refl _⟩

theorem patterns_run_between :
    (∃ f, (compileAgainst (.forFile "between") .prelude .prelude betweenUnit).1.function = some f ∧
      ∃ enough, ∀ steps ≥ enough, Machine.run .onIntegers f steps .start =
        some (.returned (.tuple [.int 2, .int 3]))) ∧
    (let s := (Compile.declareHidden "subject" .zero (.initial #[])).2
      let pattern : Pattern :=
        .sequence .zero .list [.literal .zero (.int 1), .binding .zero "last"]
        (some ⟨1, some "between"⟩)
      let made := Compile.patternTest pattern 1 false s
      ∃ locals', Machine.Leads .onIntegers (made.1.alone made.2)
          ⟨0, [.nil, .list [.int 1, .int 2, .int 3]], []⟩
          ⟨codeSize made.1.instrs, locals', [.bool true]⟩ ∧
        Holding locals' (s.current.scopes.declaredSince made.2.current.scopes)
          [("last", .int 3), ("between", .list [.int 2])]) := by
  obtain ⟨initial, behind, tests, -, -, units⟩ := patterns_run
  constructor
  · have compiles :
        (compileAgainst (.forFile "between") .prelude .prelude betweenUnit).1.function.isSome := by
      decide +kernel
    obtain ⟨f, compiled⟩ := Option.isSome_iff_exists.1 compiles
    have evaluates : betweenUnit.eval .onIntegers 0 =
        some (.returned (.tuple [.int 2, .int 3])) := by
      rfl
    exact ⟨f, compiled, units _ _ _ _ f 0 _ (by decide) compiled evaluates⟩
  · intro s pattern made
    have inText : s.InText := (behind _ (initial #[])).2.2.1 _ _ (by decide +kernel)
    obtain ⟨locals', leads, -, holds⟩ := tests s pattern 1 false (made.1.alone made.2) 0 inText
      (by decide) (by decide +kernel) (by decide) (by decide +kernel)
      (Code.placed_alone _ (by decide +kernel)) [.nil, .list [.int 1, .int 2, .int 3]] []
        (by decide)
    rw [Nat.zero_add] at leads
    exact ⟨locals', leads, holds _ rfl⟩

end StackCode
