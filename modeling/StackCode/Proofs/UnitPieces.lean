import StackCode.Proofs.BodyPieces
import StackCode.Proofs.UnitCode

/-!
# The function of a unit and its scheme

What runs before the statements of a unit is put into functions of their own, which have no
variables and do not jump. Each of them is built from the operations in it, and is finished when
the function of the unit runs it.
-/

namespace StackCode

open List

variable {s : CompileState} (unit : UnitInfo) (span : Span) {ops : List Op}

open Builds

/-! ## What runs before the statements -/

/-- A function is built from some operations alone, and all functions in it are sound. -/
structure BuiltStraight (ops : List Op) (f : CompiledFunction) : Prop where
  assembled : ∃ room instrs, Assembled (Scheme.straight ops) room instrs f
  sound : ∀ h ∈ f.walk, h.Sound

theorem BuiltStraight.built {ops : List Op} {f : CompiledFunction}
    (straight : BuiltStraight ops f) : Built (Scheme.straight ops) f := by
  obtain ⟨room, instrs, assembled⟩ := straight.assembled
  exact assembled.built

theorem Frame.builtStraight {frame : Frame} (ok : frame.pool.Ok)
    (small : frame.scopes.highWater ≤ 65536) (noCapture : frame.captures.sources = [])
    (chain : Chain Op.effect 0 ops 0) {code : Code}
    (loaded : ∀ values, frame.pool.values.toList <+: values → Loaded values ops code)
    (name file : String) (span place : Span) :
    BuiltStraight ops (frame.finish name file span 0 0
      (code ++ Code.plain place .pushNil ++ Code.plain place .ret)) := by
  have noMentions : (Scheme.straight ops).captured = [] := rfl
  have complete (W : World) : CompleteFrame W [] false frame (Scheme.straight ops) := by
    refine ⟨ok, small, ?_, ?_, fun _ => noMentions⟩
    · rw [noCapture, noMentions]
      exact .nil
    · rw [noCapture]
      exact nofun
  have coded (W : World) (le : frame.world (Scheme.straight ops) ≤ W) (stop : Nat) :
      Coded W 0 stop (Scheme.straight ops).body
        (code ++ Code.plain place .pushNil ++ Code.plain place .ret) := by
    have first := (loaded W.pool le.pool).each
    have last : Chain Op.effect 0 [.plain .pushNil, .plain .ret] stop :=
      ⟨Nat.zero_le _, 1, fun _ => rfl, Nat.le_refl _, stop, nofun, rfl⟩
    refine .ops ?_ (chain.append last)
    rw [Array.append_assoc, Code.instrs_append]
    exact rel_append first (.cons (.plain _) (.cons (.plain _) .nil))
  have whole := complete (frame.world (Scheme.straight ops))
  obtain ⟨room, assembled⟩ := whole.assembled coded trivial name nofun file span 0 0
  exact ⟨⟨room, _, assembled⟩, (whole.built coded trivial name nofun file span 0 0).2⟩

theorem LayoutChange.chain (change : LayoutChange) : Chain Op.effect 0 (change.ops unit) 0 := by
  unfold ops
  cases unit.layouts.table? change.fullName change.singleton with
  | none => rfl
  | some table =>
    have owner : Chain Op.effect 0 (.constant (some change.fullName) ::
        if change.singleton then [.plain .getSingleton] else []) 1 := by
      split
      · exact ⟨Nat.zero_le _, 1, fun _ => rfl, Nat.le_refl _, 1, fun _ => rfl, rfl⟩
      · exact .one (Nat.zero_le _) rfl
    exact owner.append ⟨Nat.zero_le _, 2, fun _ => rfl, Nat.le_refl _, 0, fun _ => rfl, rfl⟩

namespace UnitInfo

variable (unit : UnitInfo)

theorem chain_namespaces (records : OrderedMap NamespaceRecord) :
    Chain Op.effect 0 (unit.namespaceOps records) 0 := by
  -- Two operands are pushed, and the operation behind them takes both.
  have three {a b c : Op} (first : a.effect = ⟨0, 1, false⟩) (second : b.effect = ⟨0, 1, false⟩)
      (third : c.effect = ⟨2, 0, false⟩) : Chain Op.effect 0 [a, b, c] 0 := by
    refine ⟨?_, 1, fun _ => ?_, ?_, 2, fun _ => ?_, ?_, 0, fun _ => ?_, rfl⟩ <;>
      simp [first, second, third, Effect.after]
  refine (Chain.flatMap _ fun record _ => three rfl rfl rfl).append (.flatMap _ fun ns _ => ?_)
  refine Chain.append ?_ (.flatMap _ fun mixin _ => three rfl rfl rfl)
  unfold DeclaredNamespace.superclassOps
  cases ns.superclass with
  | none => rfl
  | some superclass =>
    dsimp only
    split
    · exact three rfl rfl rfl
    · rfl

theorem chain_layouts : Chain Op.effect 0 unit.layoutOps 0 :=
  .flatMap _ fun change _ => change.chain unit

end UnitInfo

namespace Loads

variable {P : List Value → Prop}

theorem inSequence {γ : Type} {step : γ → Compile Code} {ops : γ → List Op}
    (each : ∀ item P, LoadsAs P (step item) (ops item)) (items : List γ) :
    LoadsAs P (StackCode.sequence step items) (items.flatMap ops) :=
  (fold (P := P) each items #[] []).pre fun _ given => ⟨given, .nil⟩

theorem createNamespace (record : NamespaceRecord) :
    LoadsAs P (StackCode.createNamespace record) record.ops := by
  refine (getConst record.parent record.span).bind fun parent => ?_
  refine (loadSymbol record.name record.span).bind fun name => pure fun values given => ?_
  exact (given.1.2.append given.2).append (.one record.span fun _ _ => .defNamespace record.kind)

theorem linkSuperclass (ns : DeclaredNamespace) (span : Span) :
    LoadsAs P (StackCode.linkSuperclass ns span) ns.superclassOps := by
  unfold StackCode.linkSuperclass DeclaredNamespace.superclassOps
  cases ns.superclass with
  | none => exact pure fun _ _ => .nil
  | some superclass =>
    dsimp only
    split
    · refine (getConst ns.fullName span).bind fun owner => ?_
      refine (getConst superclass span).bind fun superclass => pure fun values given => ?_
      exact (given.1.2.append given.2).append (.plain span .setSuperclass)
    · exact pure fun _ _ => .nil

theorem linkMixin (ns : DeclaredNamespace) (span : Span) (mixin : String) :
    LoadsAs P (StackCode.linkMixin ns.fullName span mixin) (ns.mixinOps mixin) := by
  refine (getConst ns.fullName span).bind fun owner => ?_
  refine (getConst mixin span).bind fun mixin => pure fun values given => ?_
  exact (given.1.2.append given.2).append (.plain span .includeMixin)

theorem linkNamespace (ns : DeclaredNamespace) :
    LoadsAs P (StackCode.linkNamespace ns) ns.linkOps := by
  refine (linkSuperclass ns _).bind fun superclass => ?_
  refine (inSequence (fun mixin _ => linkMixin ns _ mixin) ns.mixins).bind fun mixins => ?_
  exact pure fun values given => given.1.2.append given.2

theorem registerLayout (unit : UnitInfo) (span : Span) (change : LayoutChange) :
    LoadsAs P (StackCode.registerLayout unit span change) (change.ops unit) := by
  unfold StackCode.registerLayout LayoutChange.ops
  cases unit.layouts.table? change.fullName change.singleton with
  | none => exact pure fun _ _ => .nil
  | some table =>
    let place := ((unit.declared.get? change.fullName).map DeclaredNamespace.span).getD span
    refine (getConst change.fullName place).bind fun owner => ?_
    refine (loadValue rfl place).bind fun loaded => pure fun values given => ?_
    have owned : Loaded values (.constant (some change.fullName) ::
        if change.singleton then [.plain .getSingleton] else []) (if change.singleton then
          owner ++ Code.plain place .getSingleton else owner) := by
      split
      · exact given.1.2.append (.plain place _)
      · exact given.1.2
    simpa using (owned.append given.2).append (.plain place .defIvars)

/-- A function is compiled aside. The current one stays as it is. -/
theorem definitions (name : String) (unit : UnitInfo) (span : Span) {body : Compile Code}
    {ops : List Op} (chain : Chain Op.effect 0 ops 0)
    (loads : LoadsAs (fun _ => True) body ops) :
    Loads P (StackCode.definitions name unit span body) fun _ f => BuiltStraight ops f := by
  let start (s : CompileState) : CompileState :=
    { s with
      current := .new false .forbidden
      enclosing := s.current :: s.enclosing
      imports := s.imports.push }
  let back (s s' : CompileState) : CompileState :=
    { s' with
      current := s'.enclosing.head?.getD (.new false .forbidden)
      enclosing := s'.enclosing.tail
      imports := s.imports }
  have run (s : CompileState) : StackCode.definitions name unit span body s =
      ((body (start s)).2.current.finish name unit.options.file span 0 0
        ((body (start s)).1 ++ Code.plain span .pushNil ++ Code.plain span .ret),
        back s (body (start s)).2) := rfl
  refine ⟨fun s before => loads.failed (start s) before, fun s ok _ clean => ?_⟩
  obtain ⟨loading, made⟩ := loads.holds (start s) .new (fun _ _ => trivial) clean
  rw [run]
  generalize body (start s) = outcome at *
  obtain ⟨code, s'⟩ := outcome
  have current : (back s s').current = s.current := by
    show s'.enclosing.head?.getD _ = s.current
    rw [loading.enclosing]
    rfl
  have enclosing : (back s s').enclosing = s.enclosing := by
    show s'.enclosing.tail = s.enclosing
    rw [loading.enclosing]
    rfl
  refine ⟨⟨by rw [current], enclosing, loading.members, loading.records, by rwa [current], ?_⟩,
    fun _ _ => ?_⟩
  · exact current ▸ prefix_refl _
  · refine Frame.builtStraight loading.ok ?_ ?_ chain made name _ span span
    · rw [loading.current]
      show (1 : Nat) ≤ 65536
      decide
    · rw [loading.current]
      rfl

theorem namespaceDefinitions (unit : UnitInfo) (span : Span)
    (records : OrderedMap NamespaceRecord) :
    Loads P (if records.size = 0 then return none else
      return some (← StackCode.definitions "<namespaceDefinitions>" unit span do
        let creations ← StackCode.sequence StackCode.createNamespace records.toValues
        return creations ++ (← StackCode.sequence StackCode.linkNamespace
          (unit.declared.namespaces.toValues.filter fun ns => records.contains ns.fullName))))
      fun _ made => Forall₂ BuiltStraight
        (if records.size = 0 then [] else [unit.namespaceOps records]) made.toList := by
  split
  · exact pure fun _ _ => .nil
  · refine (definitions _ unit span (unit.chain_namespaces records) ?_).bind fun f =>
      pure fun _ given => .cons given.2 .nil
    refine (inSequence (fun record _ => createNamespace record) records.toValues).bind
      fun creations => ?_
    refine (inSequence (fun ns _ => linkNamespace ns) _).bind fun links => ?_
    exact pure fun values given => given.1.2.append given.2

theorem ivarDefinitions (unit : UnitInfo) (span : Span) :
    Loads P (StackCode.ivarDefinitions unit span) fun _ made => Forall₂ BuiltStraight
      (if unit.layouts.changes.isEmpty then [] else [unit.layoutOps]) made.toList := by
  unfold StackCode.ivarDefinitions
  split
  · exact pure fun _ _ => .nil
  · refine (definitions _ unit span unit.chain_layouts ?_).bind fun f =>
      pure fun _ given => .cons given.2 .nil
    exact inSequence (fun change _ => registerLayout unit span change) _

theorem runAll (span : Span) {items : List (List Op)} {functions : List CompiledFunction}
    (each : Forall₂ BuiltStraight items functions) :
    LoadsAs P (StackCode.sequence (runHoisted span) functions) (items.flatMap fun ops =>
      (Scheme.straight ops).runOps) := by
  have step (ops : List Op) (f : CompiledFunction) (built : BuiltStraight ops f)
      (P : List Value → Prop) : Loads P (runHoisted span f) fun values code =>
        Loaded values (Scheme.straight ops).runOps code := by
    refine (loadFunction span fun _ _ => ⟨built.built, rfl, built.sound⟩).bind fun function => ?_
    exact pure fun values given => (given.2.append (.plain span .exec)).append (.plain span .pop)
  have behind (code : Code) (before : List Op) (P : List Value → Prop) :
      LoadsAs (fun values => P values ∧ Loaded values before code)
        (functions.foldlM (fun code f => return code ++ (← runHoisted span f)) code)
          (before ++ items.flatMap fun ops =>
          (Scheme.straight ops).runOps) := by
    induction each generalizing code before P with
    | nil => exact pure fun values given => by simpa using given.2
    | @cons ops f items functions built _ ih =>
      rw [foldlM_cons]
      have first : LoadsAs (fun values => P values ∧ Loaded values before code)
          (do return code ++ (← runHoisted span f)) (before ++ (Scheme.straight ops).runOps) :=
        (step ops f built _).bind fun more => pure fun values given =>
          given.1.2.append given.2
      refine first.bind fun code => (ih code _ _).imp fun values code _ loaded => ?_
      simpa using loaded
  exact (behind #[] [] P).pre fun _ given => ⟨given, .nil⟩

end Loads

theorem memberDefinitions_builtStraight (members : MembersOf s.members ops) :
    Forall₂ BuiltStraight (if ops.isEmpty then [] else [ops])
      (memberDefinitions unit span s).1.toList := by
  have length := (members.loaded _ (prefix_refl _) [] 0).length_eq
  have empty : s.members.code.isEmpty = ops.isEmpty := by
    have sameLength : ops.length = s.members.code.size := by
      rw [length, Code.instrs, length_map, Array.length_toList]
    rw [Bool.eq_iff_iff, Array.isEmpty_iff_size_eq_zero, isEmpty_iff_length_eq_zero, sameLength]
  rw [memberDefinitions_run, empty]
  split
  · exact .nil
  · let frame : Frame := { Frame.new false .forbidden with pool := s.members.pool }
    have small : frame.scopes.highWater ≤ 65536 := (by decide : 1 ≤ 65536)
    have built : BuiltStraight ops (frame.finish _ _ _ _ _ _) :=
      Frame.builtStraight members.pool small rfl members.chain members.loaded "<methodDefinitions>"
        unit.options.file span span.ending
    exact .cons built .nil

theorem runHoisted_failed (functions : List CompiledFunction) (code : Code) (s : CompileState)
    (before : Failed s.issues) :
    Failed (functions.foldlM (fun code f => return code ++ (← runHoisted span f)) code
      s).2.issues := by
  induction functions generalizing code s with
  | nil => exact before
  | cons f rest ih =>
    rw [foldlM_cons]
    exact ih _ _ ((@Ensures.addConstant_moves true (.function f) span s).failed before)

theorem prologue_loads (ok : s.current.pool.Ok) (members : MembersOf s.members ops)
    (clean : ¬Failed (prologue unit span s).2.issues) :
    Loading s (prologue unit span s).2 ∧
      ∀ values, (prologue unit span s).2.current.pool.values.toList <+: values →
        Loaded values ((unit.hoistedOps s.records ops).flatMap fun ops =>
          (Scheme.straight ops).runOps) (prologue unit span s).1 := by
  -- The states between the functions.
  let s₁ := (namespaceDefinitions unit span s).2
  let s₂ := (ivarDefinitions unit span s₁).2
  let made := [(namespaceDefinitions unit span s).1, (ivarDefinitions unit span s₁).1,
    (memberDefinitions unit span s₂).1]
  have run : prologue unit span s = sequence (runHoisted span) (made.filterMap id) s₂ :=
    prologue_eq unit span s
  have first := Loads.namespaceDefinitions (P := fun _ => True) unit span s.records
  have second := Loads.ivarDefinitions (P := fun _ => True) unit span
  have clean₂ : ¬Failed s₂.issues := fun early => clean (by
    rw [run]
    exact runHoisted_failed span _ #[] s₂ early)
  obtain ⟨loading₁, namespaces⟩ := first.holds s ok (fun _ _ => trivial) fun early =>
    clean₂ (second.failed s₁ early)
  obtain ⟨loading₂, ivars⟩ := second.holds s₁ loading₁.ok (fun _ _ => trivial) clean₂
  have loading : Loading s s₂ := loading₁.trans loading₂
  have isMembers := memberDefinitions_builtStraight unit span (s := s₂) (by rwa [loading.members])
  have functions : made.filterMap id = (namespaceDefinitions unit span s).1.toList ++
      (ivarDefinitions unit span s₁).1.toList ++ (memberDefinitions unit span s₂).1.toList := by
    simp only [made]
    cases (namespaceDefinitions unit span s).1 <;> cases (ivarDefinitions unit span s₁).1 <;>
      cases (memberDefinitions unit span s₂).1 <;> rfl
  have each : Forall₂ BuiltStraight (unit.hoistedOps s.records ops)
      (made.filterMap id) := by
    rw [functions]
    exact rel_append (rel_append (namespaces _ (prefix_refl _)) (ivars _ (prefix_refl _))) isMembers
  rw [run] at clean ⊢
  obtain ⟨loading₃, loaded⟩ := (Loads.runAll (P := fun _ => True) span each).holds s₂ loading.ok
    (fun _ _ => trivial) clean
  exact ⟨loading.trans loading₃, loaded⟩

/-! ## Units -/

theorem Tracks.initial (issues : Array Issue) : Tracks (.initial issues) .atTop .start := by
  refine ⟨.cons ⟨rfl, .new, .new _, Nat.le_refl _, Nat.le_refl _, ?_, .nil, Nat.zero_le _,
    fun _ => rfl⟩ .nil, nofun, ⟨.new, fun _ _ => .nil, rfl⟩, rfl⟩
  intro l member
  simp [Level.locals, Env.atTop] at member

/-- **The function of a unit without failures is assembled from its scheme**, and all functions in
it are sound. -/
theorem compileUnit_assembled {o : Options} {r : Registry} {p : Program}
    (clean : ¬Failed (compileUnit o r p).issues) :
    (∃ room instrs, Assembled (p.scheme (p.unitInfo o r)) room instrs
        (compileUnit o r p).function) ∧
      ∀ g ∈ (compileUnit o r p).function.walk, g.Sound := by
  rw [compileUnit_issues] at clean
  rw [compileUnit_eq]
  let unit := p.unitInfo o r
  have cleanBody : ¬Failed (p.compiledBody o r).2.issues := fun failed =>
    clean (compiledPrologue_failed p o r failed)
  -- The statements follow the text from the top of the unit.
  obtain ⟨tracks, behind, isMade⟩ :=
    ((compileStmts_run ⟨unit, [rootName], .topLevel⟩ p.statements false false #[]).runs
      fun _ => True).holds (.initial (p.laidOut r).issues) .start
      (.initial _) (fun _ _ => trivial) cleanBody
  have body : compileStmts ⟨unit, [rootName], .topLevel⟩ false false #[] p.statements
      (.initial (p.laidOut r).issues) = p.compiledBody o r := rfl
  have text : p.flow unit =
      ((Stmt.flows ⟨unit, [rootName], .topLevel⟩ .atTop p.statements .start).1.1,
        (Stmt.flows ⟨unit, [rootName], .topLevel⟩ .atTop p.statements .start).2) :=
    rfl
  rw [body] at tracks behind isMade
  generalize Stmt.flows ⟨unit, [rootName], .topLevel⟩ .atTop p.statements .start =
    found at *
  obtain ⟨⟨flow, inner⟩, t⟩ := found
  unfold Program.compiledPrologue at clean ⊢
  generalize p.compiledBody o r = outcome at *
  obtain ⟨code, s⟩ := outcome
  dsimp only at tracks behind isMade text clean ⊢
  obtain ⟨loading, loaded⟩ := prologue_loads unit p.span tracks.head.pool tracks.members clean
  change (∃ room instrs, Assembled (p.scheme unit) room instrs
    ((prologue unit p.span s).2.current.finish
      _ _ _ _ _ ((prologue unit p.span s).1 ++ _ ++ _ ++ _))) ∧ _
  generalize prologue unit p.span s = last at *
  obtain ⟨first, s'⟩ := last
  dsimp only at loading loaded ⊢
  have isScheme : p.scheme unit =
      { mentions := []
        body := .ops ((unit.hoistedOps s.records t.members).flatMap fun ops =>
          (Scheme.straight ops).runOps) ++ flow ++ .ops [.plain .pushNil, .plain .ret] } := by
    rw [Program.scheme, text, tracks.records]
  -- The function of a unit is no closure, and captures nothing.
  have noCapture : inner.here.captured t.mentions = [] := tracks.head.none behind.env.isClosure
  have sources : s'.current.captures.sources = [] := by
    have captures := tracks.head.captures
    rw [noCapture] at captures
    rw [loading.current]
    exact forall₂_nil_right_iff.1 captures
  have noMentions : (p.scheme unit).captured = [] := by
    rw [isScheme]
    rfl
  have complete (W : World) :
      CompleteFrame W [] false s'.current (p.scheme unit) := by
    refine ⟨loading.ok, ?_, ?_, ?_, fun _ => noMentions⟩
    · rw [loading.current]
      exact tracks.head.scopes.small
    · rw [sources, noMentions]
      exact .nil
    · rw [sources]
      exact nofun
  suffices coded : ∀ W, s'.current.world (p.scheme unit) ≤ W → ∀ stop,
      Coded W 0 stop (p.scheme unit).body _ by
    have whole := complete (s'.current.world (p.scheme unit))
    have ends : (p.scheme unit).body.Ends := by
      rw [isScheme]
      exact cons_ne_nil _ _
    obtain ⟨room, assembled⟩ := whole.assembled coded ends o.mainName nofun o.file
      p.span 0 0
    exact ⟨⟨room, _, assembled⟩, (whole.built coded ends _ nofun _ _ _ _).2⟩
  intro W le stop
  have grown : worldOf s inner t ≤ W := by
    refine ⟨loading.grows.trans le.pool, ?_, Nat.le_trans ?_ le.room⟩
    · rw [worldOf, noCapture]
      exact nil_prefix
    · show _ ≤ s'.current.scopes.localCount
      rw [loading.current]
      exact Nat.le_refl _
  have hoisted := (loaded W.pool le.pool).coded (Chain.flatMap _ fun ops _ =>
    (⟨Nat.zero_le _, 1, fun _ => rfl, Nat.le_refl _, 1, fun _ => rfl, Nat.le_refl _, 0,
      fun _ => rfl,
      rfl⟩ : Chain Op.effect 0 (Scheme.straight ops).runOps 0))
  rw [isScheme]
  have whole := (hoisted.append (isMade W grown)).append (coded_retNil p.span.ending stop)
  simpa only [Array.append_assoc] using whole

section Against

variable {o : Options} {base current : Registry} {p : Program} {f : CompiledFunction}
  (compiled : (compileAgainst o base current p).1.function = some f)

include compiled

theorem compileAgainst_assembled :
    (∃ room instrs, Assembled (p.scheme (p.unitInfo o base)) room instrs f) ∧
      ∀ g ∈ f.walk, g.Sound := by
  obtain ⟨⟨clean, -, -, -⟩, rfl⟩ := compileAgainst_published compiled
  exact compileUnit_assembled clean

theorem compileAgainst_built :
    Built (p.scheme (p.unitInfo o base)) f ∧ ∀ g ∈ f.walk, g.Sound := by
  obtain ⟨⟨room, instrs, assembled⟩, sound⟩ := compileAgainst_assembled compiled
  exact ⟨assembled.built, sound⟩

end Against

end StackCode
