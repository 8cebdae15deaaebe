import StackCode.Proofs.Matching

/-!
# Reasoning about compilation

`Ensures here nested members P c Q` is said of a step `c` of the compilation in a setting. Whatever
happens, the step takes nothing back (`Moves`). Unless there is a failure afterwards, and given `P`,
it adds functions that match the nested sources, and definitions of members (`Adds`), and `Q` holds
of what it makes. What a step leaves as it was must be shown also where `P` fails; that is why `P`
is part of the statement.
-/

namespace StackCode

open List

/-- A step from a state to another has no failure, and the function ends with its constants. -/
structure Setting.Clean (here : Setting) (s s' : CompileState) : Prop where
  ivars : s.current.ivars = here.ivars
  indexed : s.Indexed
  constants : s'.current.pool.values.toList <+: here.constants
  issues : ¬Failed s'.issues

/-- A step takes nothing back. Given `P`, and unless there is a failure, it adds functions that
match some sources, and makes what it should. -/
structure Ensures {α : Type} (here : Setting) (nested : List Source) (members : List Definition)
    (P : Prop) (c : Compile α) (Q : α → Prop) : Prop where
  moves : ∀ s : CompileState, Moves here.declares s (c s).2
  holds : P → ∀ s : CompileState, here.Clean s (c s).2 →
    Adds here.unit nested members s (c s).2 ∧ Q (c s).1

/-- A step makes code without uses of instance variables, and adds nothing. -/
abbrev Silently (here : Setting) (P : Prop) (c : Compile Code) : Prop :=
  Ensures here [] [] P c Silent

namespace Ensures

variable {α β : Type} {here : Setting} {nested nested' : List Source}
  {members members' : List Definition} {P : Prop}
  {Q : α → Prop} {Q' : β → Prop} {c : Compile α} {f : α → Compile β}

/-! ## Rules -/

theorem failed (ensures : Ensures here nested members P c Q) (s : CompileState) :
    Failed s.issues → Failed (c s).2.issues :=
  (ensures.moves s).failed

theorem pure {a : α} (made : P → Q a := by intro given; simp [given]) :
    Ensures here [] [] P (Pure.pure a) Q :=
  ⟨.refl, fun given _ _ => ⟨.of_eq rfl rfl, made given⟩⟩

theorem bind (first : Ensures here nested members P c Q)
    (second : ∀ a, Ensures here nested' members' (P ∧ Q a) (f a) Q') :
    Ensures here (nested ++ nested') (members ++ members') P (c >>= f) Q' where
  moves s := (first.moves s).trans ((second _).moves _)
  holds given s clean := by
    have moves := first.moves s
    have moves' := (second (c s).1).moves (c s).2
    obtain ⟨adds, made⟩ := first.holds given s ⟨clean.ivars, clean.indexed,
      moves'.pool.values.trans clean.constants, fun early => clean.issues (moves'.failed early)⟩
    obtain ⟨adds', made'⟩ := (second _).holds ⟨given, made⟩ _ ⟨moves.ivars.trans clean.ivars,
      moves.indexed clean.indexed, clean.constants, clean.issues⟩
    exact ⟨adds.trans adds' moves'.members, made'⟩

theorem quietBind (first : Ensures here [] [] P c Q)
    (second : ∀ a, Ensures here nested members (P ∧ Q a) (f a) Q') :
    Ensures here nested members P (c >>= f) Q' :=
  first.bind second

theorem bindQuiet (first : Ensures here nested members P c Q)
    (second : ∀ a, Ensures here [] [] (P ∧ Q a) (f a) Q') :
    Ensures here nested members P (c >>= f) Q' := by
  have := first.bind second
  rwa [append_nil, append_nil] at this

theorem bindNested (first : Ensures here [] members P c Q)
    (second : ∀ a, Ensures here nested [] (P ∧ Q a) (f a) Q') :
    Ensures here nested members P (c >>= f) Q' := by
  have := first.bind second
  rwa [append_nil] at this

theorem imp {Q'' : α → Prop} (ensures : Ensures here nested members P c Q)
    (weaker : P → ∀ a, Q a → Q'' a) : Ensures here nested members P c Q'' :=
  ⟨ensures.moves, fun given s clean => (ensures.holds given s clean).imp_right (weaker given _)⟩

theorem pre {P' : Prop} (ensures : Ensures here nested members P' c Q) (stronger : P → P') :
    Ensures here nested members P c Q :=
  ⟨ensures.moves, fun given => ensures.holds (stronger given)⟩

theorem given (ensures : Ensures here nested members True c Q) :
    Ensures here nested members P c Q :=
  ensures.pre fun _ => trivial

theorem absurd (ensures : Ensures here nested members P c Q) (never : ¬P) {Q'' : α → Prop} :
    Ensures here nested' members' P c Q'' :=
  ⟨ensures.moves, fun given => (never given).elim⟩

theorem branch {condition : Prop} [Decidable condition] {c' : Compile α}
    (yes : Ensures here nested members P c Q)
    (no : Ensures here nested members P c' Q) :
    Ensures here nested members P (if condition then c else c') Q := by
  split
  · exact yes
  · exact no

theorem get_bind {f : CompileState → Compile β}
    (rest : ∀ s, Ensures here nested members P (f s) Q') :
    Ensures here nested members P (get >>= f) Q' :=
  ⟨fun s => (rest s).moves s, fun given s => (rest s).holds given s⟩

/-- Reading how the current function reaches instance variables, where what is added depends on
that. -/
theorem accessBind {f : CompileState → Compile β} {Q : IvarAccess → β → Prop}
    (nested : IvarAccess → List Source)
    (rest : ∀ s, Ensures here (nested s.current.ivars) members P (f s)
      (Q s.current.ivars)) :
    Ensures here (nested here.ivars) members P (get >>= f) (Q here.ivars) where
  moves s := (rest s).moves s
  holds given s clean := by
    have holds := (rest s).holds given s clean
    rwa [clean.ivars] at holds

theorem ivars_bind {f : CompileState → Compile β} {Q : IvarAccess → β → Prop}
    (rest : ∀ s, Ensures here nested members P (f s) (Q s.current.ivars)) :
    Ensures here nested members P (get >>= f) (Q here.ivars) :=
  accessBind (fun _ => nested) rest

theorem modifyState {change : CompileState → CompileState}
    (moves : ∀ s, Moves here.declares s (change s))
    (functions : ∀ s, (change s).current.pool.functions = s.current.pool.functions)
    (members : ∀ s, (change s).members = s.members) :
    Ensures here [] [] P (modify change : Compile Unit) fun _ => True where
  moves := moves
  holds _ s _ := ⟨.of_eq (functions s) (members s), trivial⟩

/-! ## Reports -/

theorem report_moves {declares : Bool} (issue : Issue) (s : CompileState) :
    Moves declares s { s with issues := s.issues.push issue } :=
  { Moves.refl s with issues := Array.toList_push ▸ prefix_append _ _ }

theorem report (issue : Issue) : Ensures here [] [] P (Compile.report issue) fun _ => True :=
  ⟨report_moves issue, fun _ _ _ => ⟨.of_eq rfl rfl, trivial⟩⟩

theorem fail (failure : Failure) (span : Span) :
    Ensures here nested members P (Compile.fail failure span) fun _ => False :=
  ⟨report_moves _, fun _ _ clean => (clean.issues (failed_push_failure _ _ _)).elim⟩

theorem failIf {condition : Prop} [Decidable condition] {failure : Failure} {span : Span}
    {next : Unit → Compile β} (rest : Ensures here nested members P (next ()) Q') :
    Ensures here nested members P
      (if condition then do let r ← Compile.fail failure span; next r else next ()) Q' := by
  split
  · exact (fail failure span).quietBind fun _ => rest.pre And.left
  · exact rest

theorem warnUnused (site : Site) (span : Span) :
    Ensures here [] [] P (Compile.warnUnused site span) fun _ => True := by
  unfold Compile.warnUnused
  split
  · exact report _
  · exact pure fun _ => trivial

theorem warnUnreachable (site : Site) (span : Span) :
    Ensures here [] [] P (Compile.warnUnreachable site span) fun _ => True := by
  unfold Compile.warnUnreachable
  split
  · exact report _
  · exact pure fun _ => trivial

theorem failAll (failures : List Failure) (span : Span) :
    Ensures here [] [] P (Compile.failAll failures span) fun _ => True := by
  unfold Compile.failAll
  induction failures generalizing P with
  | nil => exact pure fun _ => trivial
  | cons failure rest ih =>
    rw [List.forM_eq_forM, forM_cons]
    exact (fail failure span).quietBind fun _ => ih

theorem checkDeclaration (site : Site) (declaration : Declaration) (span : Span) :
    Ensures here [] [] P (Compile.checkDeclaration site declaration span) fun legal =>
      legal = true ∧ site.context.permits declaration = true := by
  unfold Compile.checkDeclaration
  split
  · rename_i permitted
    exact pure fun _ => ⟨rfl, permitted⟩
  · exact (fail _ _).quietBind fun _ => pure fun never => never.2.elim

/-! ## Scopes -/

theorem markInitialized (slot : Nat) :
    Ensures here [] [] P (Compile.markInitialized slot) fun _ => True :=
  modifyState (fun s => { Moves.refl s with scopes := .markInitialized _ slot }) (fun _ => rfl)
    fun _ => rfl

theorem run_bind {c : Compile α} {next : α → Compile β} {s s' : CompileState} {a : α}
    (run : c s = (a, s')) : (c >>= next) s = next a s' := by
  show next (c s).1 (c s).2 = next a s'
  rw [run]

theorem allocate_run (step : ScopeStack → Except Failure (Nat × ScopeStack)) (span : Span)
    (s : CompileState) : Compile.allocate step span s =
      match step s.current.scopes with
      | .ok (slot, scopes) => (some slot, { s with current := { s.current with scopes := scopes } })
      | .error failure => (none, { s with issues := s.issues.push (.failure failure span) }) := by
  have read : (get : Compile CompileState) s = (s, s) := rfl
  rw [Compile.allocate, run_bind read]
  cases step s.current.scopes with
  | ok result => rfl
  | error failure => rfl

theorem allocate {step : ScopeStack → Except Failure (Nat × ScopeStack)} (span : Span)
    (moves : ∀ {s slot s'}, step s = .ok (slot, s') → s.Moves here.declares s') :
    Ensures here [] [] P (Compile.allocate step span) fun slot => slot.isSome = true where
  moves s := by
    rw [allocate_run]
    split
    · rename_i made
      exact { Moves.refl s with scopes := moves made }
    · exact report_moves _ s
  holds _ s clean := by
    rw [allocate_run] at clean ⊢
    split at clean
    · exact ⟨.of_eq rfl rfl, rfl⟩
    · exact (clean.issues (failed_push_failure _ _ _)).elim

theorem declareLocal (name : String) (mutable : Bool) (span : Span)
    (opens : here.declares = true := by rfl) :
    Ensures here [] [] P (Compile.declareLocal name mutable span) fun slot =>
      slot.isSome = true :=
  allocate span fun made => opens ▸ .declare made

theorem declareHidden (purpose : String) (span : Span) (opens : here.declares = true := by rfl) :
    Ensures here [] [] P (Compile.declareHidden purpose span) fun slot =>
      slot.isSome = true :=
  allocate span fun made => opens ▸ .allocate made

/-! ## Pools -/

/-- The state with a constant in the pool. -/
def withConstant (value : Value) (s : CompileState) : CompileState :=
  { s with current := { s.current with pool := (s.current.pool.add value).2 } }

theorem addConstant_run (value : Value) (span : Span) (s : CompileState) :
    (∃ index, (s.current.pool.add value).1 = .ok index ∧ Compile.addConstant value span s =
      (UInt16.ofNat index, withConstant value s)) ∨
      ∃ failure, (Compile.addConstant value span s).2 =
        { withConstant value s with issues := s.issues.push (.failure failure span) } := by
  have run : Compile.addToPool value s = ((s.current.pool.add value).1, withConstant value s) := rfl
  rw [Compile.addConstant, run_bind run]
  cases (s.current.pool.add value).1 with
  | ok index => exact .inl ⟨index, rfl, rfl⟩
  | error failure => exact .inr ⟨failure, rfl⟩

theorem addConstant_moves {declares : Bool} (value : Value) (span : Span) (s : CompileState) :
    Moves declares s (Compile.addConstant value span s).2 := by
  have added : Moves declares s (withConstant value s) :=
    { Moves.refl s with pool := s.current.pool.grows_add value }
  rcases addConstant_run value span s with ⟨_, -, run⟩ | ⟨_, reported⟩
  · rw [run]
    exact added
  · rw [reported]
    exact added.trans (report_moves _ _)

/-- **A constant that is added is at its index in the end.** -/
theorem addConstant_index {value : Value} {span : Span} {s : CompileState}
    (clean : here.Clean s (Compile.addConstant value span s).2) :
    ∃ index, (s.current.pool.add value).1 = .ok index ∧
      Compile.addConstant value span s = (UInt16.ofNat index, withConstant value s) ∧
      here.constants[(UInt16.ofNat index).toNat]? = some value := by
  rcases addConstant_run value span s with ⟨index, fits, added⟩ | ⟨_, reported⟩
  · obtain ⟨small, there⟩ := clean.indexed.current.add fits
    refine ⟨index, fits, added, ?_⟩
    have constants := clean.constants
    rw [added] at constants
    rw [UInt16.toNat_ofNat_of_lt' small]
    exact getElem?_of_begins constants there
  · rw [reported] at clean
    exact (clean.issues (failed_push_failure _ _ _)).elim

theorem addConstant {value : Value} (noFunction : value.function? = none) (span : Span) :
    Ensures here [] [] P (Compile.addConstant value span) fun i =>
      here.constants[i.toNat]? = some value where
  moves := addConstant_moves value span
  holds _ s clean := by
    obtain ⟨_, -, added, there⟩ := addConstant_index clean
    rw [added]
    exact ⟨.of_eq (s.current.pool.functions_add noFunction) rfl, there⟩

theorem addFunction {f : CompiledFunction} {source : Source} (span : Span)
    (matched : P → Matches here.unit source f) :
    Ensures here [source] [] P (Compile.addConstant (.function f) span) fun i =>
      here.constants[i.toNat]? = some (.function f) where
  moves := addConstant_moves _ span
  holds given s clean := by
    obtain ⟨_, fits, added, there⟩ := addConstant_index clean
    rw [added]
    have nothing : Adds here.unit [] [] s s := .of_eq rfl rfl
    refine ⟨{ nothing with functions_eq := ⟨[f], .cons (matched given) .nil, ?_⟩ }, there⟩
    rcases s.current.pool.functions_addFunction f with ⟨_, tooMany⟩ | last
    · cases fits.symm.trans tooMany
    · exact last

/-! ## Functions of their own -/

theorem inFunction {inner : IvarAccess} {body : Compile α} {Q : List Value → α → Prop}
    (isClosure : Bool)
    (ensures : ∀ constants, Ensures ⟨here.unit, inner, constants, true⟩ nested members P body
      (Q constants)) :
    Ensures here [] members P (Compile.inFunction isClosure inner body) fun made =>
      Q made.2.pool.values.toList made.1 ∧
        Forall₂ (Matches here.unit) nested made.2.pool.functions where
  moves s := ((ensures []).moves (s.nested isClosure inner)).returned.2
  holds given s clean := by
    let inside := body (s.nested isClosure inner)
    have moves : Moves true (s.nested isClosure inner) inside.2 := (ensures []).moves _
    obtain ⟨adds, made⟩ := (ensures inside.2.current.pool.values.toList).holds given
      (s.nested isClosure inner) ⟨rfl, ⟨.new, clean.indexed.members⟩, prefix_refl _, clean.issues⟩
    obtain ⟨functions, matched, functions_eq⟩ := adds.functions_eq
    have none : (s.nested isClosure inner).current.pool.functions = [] := rfl
    rw [none, nil_append] at functions_eq
    refine ⟨⟨⟨[], .nil, ?_⟩, adds.members_eq, adds.definitions⟩, made, ?_⟩
    · rw [append_nil]
      exact congrArg Pool.functions (@Moves.returned true _ _ _ _ moves).1
    · show Forall₂ (Matches here.unit) nested inside.2.current.pool.functions
      rwa [functions_eq]

/-- Code for the definitions of members. What it adds to its pool are the functions of its
methods. -/
theorem inMembers {body : Compile Code} (isNested : sourcesOf members = nested)
    (ensures : ∀ constants, Ensures { here with constants := constants } nested [] P body
      fun code => DefinedBy here.unit constants members code.instrs) :
    Ensures here [] members P (Compile.inMembers body) fun _ => True := by
  have moves (s : CompileState) : Moves here.declares s.swapped (body s.swapped).2 :=
    (ensures []).moves _
  refine ⟨fun s => { moves s with
      pool := (moves s).members
      members := (moves s).pool
      memberCode := (moves s).memberCode.trans (Array.toList_append ▸ prefix_append _ _) },
    fun given s clean => ⟨?_, trivial⟩⟩
  have made (constants : List Value)
      (ends : (body s.swapped).2.current.pool.values.toList <+: constants) :=
    (ensures constants).holds given s.swapped ⟨clean.ivars,
      ⟨clean.indexed.members, clean.indexed.current⟩, ends, clean.issues⟩
  obtain ⟨adds, -⟩ := made _ (prefix_refl _)
  refine ⟨adds.members_eq, isNested ▸ adds.functions_eq, (body s.swapped).1.instrs, ?_,
    fun constants ends => (made constants ends).2⟩
  show ((body s.swapped).2.members.code ++ (body s.swapped).1).instrs = _
  rw [Code.instrs_append, adds.code_eq]
  rfl

end Ensures

end StackCode
