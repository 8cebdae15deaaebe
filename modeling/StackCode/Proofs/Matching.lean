import Mathlib.Data.List.Forall2
import StackCode.Proofs.Declarations
import StackCode.Proofs.Jumps
import StackCode.Proofs.PoolEntries
import StackCode.Proofs.Members
import StackCode.Proofs.ScopeChanges

/-!
# Compiled functions match their sources

`Matches unit source f`: the function `f` is compiled from `source`. Its code ends with a return;
its instructions that use an instance variable are the source's uses, one by one, each with the
address of the variable (`UnitInfo.Reaches`); and its nested functions match the nested sources.

`Adds` says what a part of a function adds to the functions that are being compiled, unless there is
a failure. Whether or not there is one, nothing is taken back (`Moves`).
-/

namespace StackCode

open List

variable {code : Code} (frame : Frame) {value : Value} {here : Setting} {source : Source}
  {f : CompiledFunction} {unit : UnitInfo}

/-! ## Instructions that use instance variables -/

/-- How an instruction finds an instance variable. -/
inductive IvarAddress where
  | slot (index : Nat)
  /-- By the index of its symbol in the pool. -/
  | name (index : Nat)
deriving DecidableEq

/-- Whether an instruction writes an instance variable, and how it addresses it, if it uses one. -/
def Instr.ivar? : Instr → Option (Bool × IvarAddress)
  | .indexed .getIvar index => some (false, .slot index.toNat)
  | .indexed .setIvar index => some (true, .slot index.toNat)
  | .indexed .getIvarName index => some (false, .name index.toNat)
  | .indexed .setIvarName index => some (true, .name index.toNat)
  | _ => none

/-- The uses of instance variables in some instructions, in their order. -/
def ivarsOf (instrs : List Instr) : List (Bool × IvarAddress) := instrs.filterMap Instr.ivar?

@[simp] theorem ivarsOf_nil : ivarsOf [] = [] := rfl

@[simp] theorem ivarsOf_append (a b : List Instr) : ivarsOf (a ++ b) = ivarsOf a ++ ivarsOf b :=
  filterMap_append

@[simp] theorem ivarsOf_cons (i : Instr) (rest : List Instr) :
    ivarsOf (i :: rest) = i.ivar?.toList ++ ivarsOf rest := by
  rw [ivarsOf, filterMap_cons]
  cases i.ivar? <;> rfl

@[simp] theorem ivar?_plain (op : PlainOp) : (Instr.plain op).ivar? = none := rfl

/-- An address is that of a variable that is used: its slot in the unit's table, or a symbol of the
pool that the unit's table has. -/
def UnitInfo.Reaches (unit : UnitInfo) (constants : List Value) :
    IvarAccess → IvarUse → Bool × IvarAddress → Prop
  | .fixed fullName singleton, use, (writes, .slot index) => writes = use.writes ∧
    (unit.table? fullName singleton).bind (·.index? use.name) = some index
  | .byName fullName, use, (writes, .name index) => writes = use.writes ∧
    (unit.table? fullName false).any (·.contains use.name) = true ∧
      constants[index]? = some (.symbol use.name)
  | _, _, _ => False

/-! ## Pieces -/

/-- Where a step of the compilation is taken. -/
structure Setting where
  unit : UnitInfo
  /-- How the current function reaches instance variables. -/
  ivars : IvarAccess
  /-- The constants of the current function when it is finished. -/
  constants : List Value
  /-- Whether variables may be declared where the step is taken. -/
  declares : Bool

/-- A piece of code without uses of instance variables. -/
@[simp] abbrev Silent (code : Code) : Prop := ivarsOf code.instrs = []

/-- A piece of code uses instance variables as its source does. -/
@[simp] abbrev Piece (here : Setting) (uses : List IvarUse) (code : Code) : Prop :=
  List.Forall₂ (here.unit.Reaches here.constants here.ivars) uses (ivarsOf code.instrs)

theorem Piece.of_silent (silent : Silent code) : Piece here [] code := by
  rw [Piece, silent]
  exact .nil

theorem Piece.append {uses uses' : List IvarUse} {a b : Code} (first : Piece here uses a)
    (second : Piece here uses' b) :
    Piece here (uses ++ uses') (a ++ b) := by
  rw [Piece, Code.instrs_append, ivarsOf_append]
  exact rel_append first second

/-! ## Functions -/

/-- The functions in a pool. -/
def Pool.functions (p : Pool) : List CompiledFunction := p.values.toList.filterMap Value.function?

theorem Pool.functions_add (noFunction : value.function? = none) (pool : Pool) :
    (pool.add value).2.functions = pool.functions := by
  unfold add
  split
  · rfl
  · split
    · rfl
    · simp [push, functions, noFunction]

theorem Pool.functions_addFunction (f : CompiledFunction) (pool : Pool) :
    (∃ failure, (pool.add (.function f)).1 = .error failure) ∨
      (pool.add (.function f)).2.functions = pool.functions ++ [f] := by
  unfold add
  rw [show pool.find? (.function f) = none from rfl]
  dsimp only
  split
  · exact .inl ⟨_, rfl⟩
  · exact .inr (by simp [push, functions, Value.function?])

/-- A function is compiled from a source. -/
inductive Matches (unit : UnitInfo) : Source → CompiledFunction → Prop where
  | intro {source : Source} {f : CompiledFunction} (code : Code) (body : List Instr)
      (name_eq : f.name = source.name)
      (location_eq : f.location = ⟨unit.options.file, source.span⟩)
      (code_eq : f.code = code.bytes)
      (lines_eq : f.lines = .ofCode code)
      (returns : code.instrs = body ++ [.plain .ret])
      (reaches : List.Forall₂ (unit.Reaches f.constants source.ivars) source.uses
        (ivarsOf code.instrs))
      (nested : List.Forall₂ (Matches unit) source.nested (f.constants.filterMap Value.function?)) :
      Matches unit source f

theorem Matches.name_eq (matched : Matches unit source f) : f.name = source.name := by
  cases matched with
  | intro _ _ name => exact name

theorem Matches.location_eq (matched : Matches unit source f) :
    f.location = ⟨unit.options.file, source.span⟩ := by
  cases matched with
  | intro _ _ _ location => exact location

theorem Frame.finish_code (name file : String) (span : Span) (required optional : Nat)
    (code : Code) :
    ∃ room : Code, Silent room ∧
      (frame.finish name file span required optional code).code = (room ++ code).bytes ∧
      (frame.finish name file span required optional code).lines = .ofCode (room ++ code) := by
  unfold Frame.finish
  by_cases none : frame.scopes.localCount - (required + optional) = 0
  · exact ⟨#[], rfl, by simp [none], by simp [none]⟩
  · exact ⟨Code.one span
      (.indexed .prepLocals (UInt16.ofNat (frame.scopes.localCount - (required + optional)))),
        rfl, by simp [none], by simp [none]⟩

@[simp] theorem Frame.constants_finish (name file : String) (span : Span) (required optional : Nat)
    (code : Code) :
    (frame.finish name file span required optional code).constants = frame.pool.values.toList := rfl

theorem Frame.matches_finish {frame : Frame} {ivars : IvarAccess} {uses : List IvarUse}
    {nested : List Source} (piece : Piece ⟨unit, ivars, frame.pool.values.toList, true⟩ uses code)
    (functions : Forall₂ (Matches unit) nested frame.pool.functions) (name : String)
    (span place : Span) (required optional : Nat) :
    Matches unit ⟨name, span, ivars, uses, nested⟩
      (frame.finish name unit.options.file span required optional
        (code ++ Code.plain place .ret)) := by
  obtain ⟨room, silent, bytes, lines⟩ :=
    frame.finish_code name unit.options.file span required optional
    (code ++ Code.plain place .ret)
  refine .intro (room ++ (code ++ Code.plain place .ret)) (room ++ code).instrs rfl
    rfl bytes lines (by simp) ?_ functions
  simpa [silent] using piece

theorem CompiledFunction.walkPool_eq (values : List Value) :
    walkPool values = (values.filterMap Value.function?).flatMap walk := by
  induction values with
  | nil => rfl
  | cons value rest ih =>
    cases value with
    | function f =>
      rw [walkPool, ih]
      rfl
    | _ => exact ih

mutual

theorem Matches.walk {unit : UnitInfo} :
    ∀ {source : Source} {f : CompiledFunction}, Matches unit source f →
    Forall₂ (Matches unit) source.walk f.walk
  | ⟨_, _, _, _, nested⟩, ⟨_, _, _, _, _, _, _, _⟩, matched => by
    refine .cons matched ?_
    rw [CompiledFunction.walkPool_eq]
    cases matched with
    | intro _ _ _ _ _ _ _ _ nestedMatch => exact Matches.walkAll nested nestedMatch

theorem Matches.walkAll {unit : UnitInfo} :
    ∀ (sources : List Source) {functions : List CompiledFunction}, Forall₂ (Matches unit)
      sources functions →
      Forall₂ (Matches unit) (Source.walkAll sources) (functions.flatMap CompiledFunction.walk)
  | [], _, .nil => .nil
  | _ :: rest, _, .cons first others => rel_append first.walk (Matches.walkAll rest others)

end

/-! ## Definitions of members -/

/-- An instruction pushes a constant. -/
def Instr.Loads (constants : List Value) (value : Value) (i : Instr) : Prop :=
  ∃ index : UInt16, i = .indexed .loadValue index ∧ constants[index.toNat]? = some value

theorem Instr.Loads.ivar? {constants : List Value} {i : Instr} (loads : i.Loads constants value) :
    i.ivar? = none := by
  obtain ⟨_, rfl, -⟩ := loads
  rfl

/-- Instructions push a target. -/
def DefinitionTarget.Pushed (constants : List Value) (target : DefinitionTarget)
    (instrs : List Instr) : Prop :=
  ∃ index : UInt16, constants[index.toNat]? = some (.symbol target.fullName) ∧
    instrs = .indexed .getConst index :: if target.singleton then [.plain .getSingleton] else []

/-- Instructions define a member. -/
inductive Member.Written (unit : UnitInfo) (constants : List Value) : Member → List Instr →
    Prop where
  | method {source : Source} {f : CompiledFunction} {function name : Instr}
      (matched : Matches unit source f) (isFunction : function.Loads constants (.function f))
      (isName : name.Loads constants (.symbol source.name)) :
      Written unit constants (.method source) [function, name, .plain .defMethod]
  | getter {name : String} {symbol : Instr} (isName : symbol.Loads constants (.symbol name)) :
      Written unit constants (.getter name) [symbol, .plain .defGetter]
  | setter {name : String} {symbol : Instr} (isName : symbol.Loads constants (.symbol name)) :
      Written unit constants (.setter name) [symbol, .plain .defSetter]
  | secondName {newName oldName : String} {new old : Instr}
      (isNew : new.Loads constants (.symbol newName))
      (isOld : old.Loads constants (.symbol oldName)) :
      Written unit constants (.secondName newName oldName) [new, old, .plain .defMethodAlias]

/-- Instructions that define some members, one behind the other. -/
inductive DefinedBy (unit : UnitInfo) (constants : List Value) : List Definition → List Instr →
    Prop where
  | nil : DefinedBy unit constants [] []
  | cons {target : DefinitionTarget} {member : Member} {members : List Definition}
      {owner own instrs : List Instr} (pushed : target.Pushed constants owner)
      (written : member.Written unit constants own)
      (others : DefinedBy unit constants members instrs) :
      DefinedBy unit constants ((target, member) :: members) (owner ++ own ++ instrs)

namespace DefinedBy

variable {unit : UnitInfo} {constants : List Value} {members members' : List Definition}
  {instrs instrs' : List Instr}

theorem one {target : DefinitionTarget} {member : Member} {owner own : List Instr}
    (pushed : target.Pushed constants owner) (written : member.Written unit constants own) :
    DefinedBy unit constants [(target, member)] (owner ++ own) :=
  append_nil (owner ++ own) ▸ .cons pushed written .nil

theorem append (first : DefinedBy unit constants members instrs)
    (second : DefinedBy unit constants members' instrs') :
    DefinedBy unit constants (members ++ members') (instrs ++ instrs') := by
  induction first with
  | nil => exact second
  | cons pushed written _ ih =>
    rw [List.append_assoc]
    exact .cons pushed written ih

theorem forall_mem {p : Instr → Prop} (get : ∀ index, p (.indexed .getConst index))
    (load : ∀ index, p (.indexed .loadValue index)) (run : ∀ op, p (.plain op))
    (defined : DefinedBy unit constants members instrs) : ∀ i ∈ instrs, p i := by
  have loaded {i : Instr} {value : Value} (loads : i.Loads constants value) : p i := by
    obtain ⟨index, rfl, -⟩ := loads
    exact load index
  induction defined with
  | nil => exact nofun
  | @cons target _ _ _ own _ pushed written _ ih =>
    obtain ⟨index, -, rfl⟩ := pushed
    have own : ∀ i ∈ own, p i := by
      cases written with
      | method _ isFunction isName => simp [loaded isFunction, loaded isName, run]
      | getter isName | setter isName => simp [loaded isName, run]
      | secondName isNew isOld => simp [loaded isNew, loaded isOld, run]
    rw [List.forall_mem_append, List.forall_mem_append]
    refine ⟨⟨?_, own⟩, ih⟩
    cases target.singleton <;> simp [get, run]

theorem silent (defined : DefinedBy unit constants members instrs) : ivarsOf instrs = [] :=
  filterMap_eq_nil_iff.2 (defined.forall_mem (fun _ => rfl) (fun _ => rfl) fun _ => rfl)

theorem eq_nil (defined : DefinedBy unit constants members []) : members = [] := by
  generalize none : ([] : List Instr) = instrs at defined
  cases defined with
  | nil => rfl
  | cons pushed =>
    obtain ⟨_, -, rfl⟩ := pushed
    cases none

end DefinedBy

/-! ## What compilation leaves as it was -/

/-- What becomes of a function while a part of it is compiled, or a function in it. Only a
declaration adds to its innermost scope. -/
structure Frame.Moves (declares : Bool) (f f' : Frame) : Prop where
  isClosure : f'.isClosure = f.isClosure
  ivars : f'.ivars = f.ivars
  pool : f.pool.Grows f'.pool
  scopes : f.scopes.Moves declares f'.scopes
  captures : f.captures.captures.toList <+: f'.captures.captures.toList

theorem Frame.Moves.refl (declares : Bool) (f : Frame) : f.Moves declares f :=
  ⟨rfl, rfl, .refl _, .refl _, prefix_rfl⟩

theorem Frame.Moves.trans {declares : Bool} {f f' f'' : Frame} (first : f.Moves declares f')
    (second : f'.Moves declares f'') : f.Moves declares f'' :=
  ⟨second.isClosure.trans first.isClosure, second.ivars.trans first.ivars,
    first.pool.trans second.pool, first.scopes.trans second.scopes,
    first.captures.trans second.captures⟩

/-- What becomes of the functions around one that may be a closure. They may have captured more, up
to the first that is no closure. -/
inductive Outside : Bool → List Frame → List Frame → Prop where
  | same (isClosure : Bool) (frames : List Frame) : Outside isClosure frames frames
  | through {f f' : Frame} {frames frames' : List Frame} (moves : f.Moves false f')
      (pool : f'.pool = f.pool) (outer : Outside f.isClosure frames frames') :
      Outside true (f :: frames) (f' :: frames')

theorem Outside.trans {isClosure : Bool} {a b c : List Frame} (first : Outside isClosure a b)
    (second : Outside isClosure b c) : Outside isClosure a c := by
  induction first generalizing c with
  | same => exact second
  | through moves pool outer ih =>
    cases second with
    | same => exact .through moves pool outer
    | through moves' pool' outer' =>
      exact .through (moves.trans moves') (pool'.trans pool) (ih (moves.isClosure ▸ outer'))

/-- What becomes of the state when a part of the text is compiled. -/
structure Moves (declares : Bool) (s s' : CompileState) : Prop extends
    Frame.Moves declares s.current s'.current where
  issues : s.issues.toList <+: s'.issues.toList
  enclosing : Outside s.current.isClosure s.enclosing s'.enclosing
  imports : declares = false → s'.imports = s.imports
  members : s.members.pool.Grows s'.members.pool
  memberCode : s.members.code.toList <+: s'.members.code.toList

/-- The pools that are added to find their constants. -/
structure CompileState.Indexed (s : CompileState) : Prop where
  current : s.current.pool.Indexed
  members : s.members.pool.Indexed

/-- The state in which members are defined, with the pools of the current function and of the
members swapped. -/
def CompileState.swapped (s : CompileState) : CompileState :=
  { s with
    current := { s.current with pool := s.members.pool }
    members := { s.members with pool := s.current.pool } }

/-- The state at the start of a function. -/
def CompileState.nested (s : CompileState) (isClosure : Bool) (ivars : IvarAccess) : CompileState :=
  { s with
    current := .new isClosure ivars
    enclosing := s.current :: s.enclosing
    imports := s.imports.push }

/-- The state behind a function. -/
def CompileState.returned (s : CompileState) (imports : Imports) : CompileState :=
  { s with
    current := s.enclosing.head?.getD (.new false .forbidden)
    enclosing := s.enclosing.tail
    imports := imports }

/-- The state at the start of a scope. -/
def CompileState.entered (s : CompileState) : CompileState :=
  { s with
    current := { s.current with scopes := s.current.scopes.enter }
    imports := s.imports.push }

/-- The state behind a scope. -/
def CompileState.exited (s : CompileState) : CompileState :=
  { s with current := { s.current with scopes := s.current.scopes.exit.2 } }

section

variable {α : Type} (body : Compile α) (s : CompileState)

theorem Compile.withScope_run (span : Span) :
    let inside := body s.entered
    let closed := Compile.closeSlots span inside.2.current.scopes.exit.1.captured inside.2.exited
    Compile.withScope span body s =
      ((inside.1, closed.1), { closed.2 with imports := s.imports }) :=
  rfl

theorem Compile.inFunction_run (isClosure : Bool) (ivars : IvarAccess) :
    let inside := body (s.nested isClosure ivars)
    Compile.inFunction isClosure ivars body s =
      ((inside.1, inside.2.current), inside.2.returned s.imports) :=
  rfl

end

namespace Moves

variable {declares : Bool} {s s' s'' : CompileState}

theorem refl (s : CompileState) : Moves declares s s :=
  { Frame.Moves.refl declares s.current with
    issues := prefix_rfl
    enclosing := .same _ _
    imports _ := rfl
    members := .refl _
    memberCode := prefix_rfl }

theorem trans (first : Moves declares s s') (second : Moves declares s' s'') :
    Moves declares s s'' :=
  { first.toMoves.trans second.toMoves with
    issues := first.issues.trans second.issues
    enclosing := first.enclosing.trans (first.isClosure ▸ second.enclosing)
    imports still := (second.imports still).trans (first.imports still)
    members := first.members.trans second.members
    memberCode := first.memberCode.trans second.memberCode }

theorem failed (moves : Moves declares s s') (failed : Failed s.issues) : Failed s'.issues := by
  obtain ⟨more, issues⟩ := moves.issues
  rw [Failed, ← Array.any_toList] at failed ⊢
  rw [← issues, any_append, failed, Bool.true_or]

theorem indexed (moves : Moves declares s s') (indexed : s.Indexed) : s'.Indexed :=
  ⟨moves.pool.indexed indexed.current, moves.members.indexed indexed.members⟩

theorem returned {isClosure : Bool} {ivars : IvarAccess}
    (inner : Moves true (s.nested isClosure ivars) s') :
    (s'.returned s.imports).current.pool = s.current.pool ∧
      Moves declares s (s'.returned s.imports) := by
  have around : Outside isClosure (s.current :: s.enclosing) s'.enclosing := inner.enclosing
  have back {frame : Frame} {outer : List Frame} (moves : s.current.Moves declares frame)
      (outside : Outside s.current.isClosure s.enclosing outer) :
      Moves declares s { s' with current := frame, enclosing := outer, imports := s.imports } :=
    { moves with
      issues := inner.issues
      enclosing := outside
      imports _ := rfl
      members := inner.members
      memberCode := inner.memberCode }
  unfold CompileState.returned
  generalize s'.enclosing = enclosing at around
  cases around with
  | same => exact ⟨rfl, back (.refl _ _) (.same _ _)⟩
  | through moves pool outer =>
    exact ⟨pool, back { moves with scopes := moves.scopes.weaken } outer⟩

theorem inside (inner : Moves true s.entered s') (closing : Moves declares s'.exited s'') :
    Moves declares s { s'' with imports := s.imports } where
  isClosure := closing.isClosure.trans inner.isClosure
  ivars := closing.ivars.trans inner.ivars
  pool := inner.pool.trans closing.pool
  scopes := (ScopeStack.Moves.inside inner.scopes).1.trans closing.scopes
  captures := inner.captures.trans closing.captures
  issues := inner.issues.trans closing.issues
  enclosing := by
    have same : s'.current.isClosure = s.current.isClosure := inner.isClosure
    exact inner.enclosing.trans (same ▸ closing.enclosing)
  imports _ := rfl
  members := inner.members.trans closing.members
  memberCode := inner.memberCode.trans closing.memberCode

end Moves

/-! ## What compilation adds -/

/-- What the compilation of a part of a function adds to the state: functions that match the
nested sources, and definitions of members. -/
structure Adds (unit : UnitInfo) (nested : List Source) (members : List Definition)
    (s s' : CompileState) : Prop where
  functions_eq : ∃ made, List.Forall₂ (Matches unit) nested made ∧
    s'.current.pool.functions = s.current.pool.functions ++ made
  members_eq : ∃ made, List.Forall₂ (Matches unit) (sourcesOf members) made ∧
    s'.members.pool.functions = s.members.pool.functions ++ made
  definitions : ∃ instrs, s'.members.code.instrs = s.members.code.instrs ++ instrs ∧
    ∀ constants, s'.members.pool.values.toList <+: constants →
      DefinedBy unit constants members instrs

namespace Adds

variable {unit : UnitInfo} {nested nested' : List Source} {members members' : List Definition}
  {s s' s'' : CompileState}

theorem of_eq (functions : s'.current.pool.functions = s.current.pool.functions)
    (members : s'.members = s.members) : Adds unit [] [] s s' where
  functions_eq := ⟨[], .nil, by rw [functions, append_nil]⟩
  members_eq := ⟨[], .nil, by rw [members, append_nil]⟩
  definitions := ⟨[], by rw [members, append_nil], fun _ _ => .nil⟩

theorem code_eq (adds : Adds unit nested [] s s') :
    s'.members.code.instrs = s.members.code.instrs := by
  obtain ⟨instrs, same, none⟩ := adds.definitions
  cases none _ (prefix_refl _)
  rw [same, append_nil]

theorem trans (first : Adds unit nested members s s') (second : Adds unit nested' members' s' s'')
    (grows : s'.members.pool.Grows s''.members.pool) :
    Adds unit (nested ++ nested') (members ++ members') s s'' where
  functions_eq := by
    obtain ⟨made, match_, functions⟩ := first.functions_eq
    obtain ⟨made', match', functions'⟩ := second.functions_eq
    exact ⟨made ++ made', rel_append match_ match',
      by rw [functions', functions, List.append_assoc]⟩
  members_eq := by
    obtain ⟨made, match_, functions⟩ := first.members_eq
    obtain ⟨made', match', functions'⟩ := second.members_eq
    rw [sourcesOf, filterMap_append]
    exact ⟨made ++ made', rel_append match_ match',
      by rw [functions', functions, List.append_assoc]⟩
  definitions := by
    obtain ⟨instrs, code, defined⟩ := first.definitions
    obtain ⟨instrs', code', defined'⟩ := second.definitions
    exact ⟨instrs ++ instrs', by rw [code', code, List.append_assoc], fun constants ends =>
      (defined constants (grows.values.trans ends)).append (defined' constants ends)⟩

end Adds

end StackCode
