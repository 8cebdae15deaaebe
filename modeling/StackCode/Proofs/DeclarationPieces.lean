import StackCode.Proofs.BodyCode
import StackCode.Proofs.PatternPieces

/-!
# Functions and declarations

A closure, a method and the body of a namespace are functions of their own. Each is finished before
it becomes a constant. What may not stand where it does is reported, so unless there is a failure
every declaration is legal.
-/

namespace StackCode

theorem coded_ret {W : World} (span : Span) (stop : Nat) :
    Coded W 1 stop (.ops [.plain .ret]) (Code.plain span .ret) :=
  .one (.plain _) span ⟨Nat.le_refl _, stop, nofun, rfl⟩

theorem coded_retNil {W : World} (span : Span) (stop : Nat) :
    Coded W 0 stop (.ops [.plain .pushNil, .plain .ret])
      (Code.plain span .pushNil ++ Code.plain span .ret) :=
  .ops (.cons (.plain _) (.cons (.plain _) .nil))
    ⟨Nat.zero_le _, 1, fun _ => rfl, Nat.le_refl _, stop, nofun, rfl⟩

theorem Loads.useImports (site : Site) (entries : List Using) (span : Span) :
    Loads (fun _ => True) (Compile.useImports site entries span) fun _ _ => True := by
  exact get_bind fun s =>
    bind (modifyState (fun _ => rfl) (fun _ => rfl) (fun _ => rfl) (fun _ => rfl)
    fun _ => rfl) fun _ => failAll _ span

namespace DefinitionTarget

variable (target : DefinitionTarget)

theorem chain_ops : Chain Op.effect 0 target.ops 1 := by
  unfold ops
  split
  · exact ⟨Nat.zero_le _, 1, fun _ => rfl, Nat.le_refl _, 1, fun _ => rfl, rfl⟩
  · exact .one (Nat.zero_le _) rfl

theorem chain_method (name : String) (scheme : Scheme) :
    Chain Op.effect 0 (target.methodOps name scheme) 0 :=
  target.chain_ops.append ⟨Nat.zero_le _, 2, fun _ => rfl, Nat.zero_le _, 3, fun _ => rfl,
    Nat.le_refl _, 0, fun _ => rfl, rfl⟩

theorem chain_accessor {op : PlainOp} (defines : op.effect = ⟨2, 0, false⟩) (name : String) :
    Chain Op.effect 0 (target.accessorOps op name) 0 := by
  have effect : (Op.plain op).effect = ⟨2, 0, false⟩ := defines
  refine target.chain_ops.append ⟨Nat.zero_le _, 2, fun _ => rfl, ?_, 0, fun _ => ?_, rfl⟩
  · exact Nat.le_of_eq (congrArg Effect.pops effect)
  · rw [effect]
    rfl

theorem chain_attribute (kind : AttributeKind) (name : String) :
    Chain Op.effect 0 (target.attributeOps kind name) 0 := by
  cases kind with
  | getter => exact target.chain_accessor rfl name
  | setter => exact target.chain_accessor rfl name
  | accessor => exact (target.chain_accessor rfl name).append (target.chain_accessor rfl name)

theorem chain_alias (entry : Alias) : Chain Op.effect 0 (target.aliasOps entry) 0 :=
  target.chain_ops.append ⟨Nat.zero_le _, 2, fun _ => rfl, Nat.zero_le _, 3, fun _ => rfl,
    Nat.le_refl _, 0, fun _ => rfl, rfl⟩

end DefinitionTarget

namespace Builds

variable {α β γ δ : Type} {env : Env} {P : World → Prop}
variable {g : Gen (Flow Op)} {after : β → Env} {value : Compile Code} {Q : World → α → β → Prop}
  {part : Site → Env → Gen (Flow Op × Env)} {body : Site → Compile Code} (site : Site)
  (name : String) (params : List Parameter) (declaration : Declaration) (span : Span)

theorem known {c : Compile α} {g : Gen β} {φ : Prop}
    (failed : ∀ s : CompileState, Failed s.issues → Failed (c s).2.issues) (isKnown : ∀ W, P W → φ)
    (rest : φ → Builds env P c g after Q) :
    Builds env P c g after Q := by
  by_cases holds : φ
  · exact rest holds
  · exact absurd failed fun W given => holds (isKnown W given)

theorem checked {next : Bool → Compile γ} {g : Gen δ} {after : δ → Env} {Q : World → γ → δ → Prop}
    (failed : ∀ s : CompileState, Failed s.issues → Failed (next false s).2.issues)
    (rest : site.context.permits declaration = true → ∀ P, Builds env P (next true) g after Q) :
    Builds env P (Compile.checkDeclaration site declaration span >>= next) g after Q := by
  unfold Compile.checkDeclaration
  by_cases legal : site.context.permits declaration = true
  · rw [if_pos legal, pure_bind]
    exact rest legal P
  · rw [if_neg legal, bind_assoc]
    exact fail failed

theorem warned {next : Compile α} {g : Gen β} {site : Site} {span : Span} {condition : Bool}
    (rest : ∀ P, Builds env P next g after Q) :
    Builds env P (do
      if condition then Compile.warnUnreachable site span
      next) g after Q :=
  branch (load (Loads.warnUnreachable site span) fun _ => rest _) (rest P)

theorem checkOnly :
    Runs 0 env (do
      let _ ← Compile.checkDeclaration site declaration span
      return #[]) (return (.ops [], env)) :=
  fun _ => load (Loads.checkDeclaration site declaration span) fun _ => pure rfl fun _ _ => .nil

/-! ## Parameters -/

theorem markSlot {γ δ : Type} {slot : Option Nat} {next : Unit → Compile γ} {g : Gen δ}
    {after : δ → Env} {Q : World → γ → δ → Prop} (rest : Builds env P (next ()) g after Q) :
    Builds env P (match slot with
      | some slot => do let r ← Compile.markInitialized slot; next r
      | _ => next ()) g after Q := by
  cases slot with
  | none => exact rest
  | some slot => exact (markInitialized slot).step fun _ => rest.pre fun _ => And.left

theorem declareParams (params : List Parameter) (seen : NameTable) (seenOptional : Bool)
    (slots : Array (Option Nat)) :
    Builds env P (StackCode.declareParams seen seenOptional slots params) (Gen.params env params)
      Prod.snd fun _ all made => all = slots.toList ++ made.1.map (some ·.slot) ∧
        ∀ l ∈ made.1, l ∈ made.2.live := by
  induction params generalizing env P seen seenOptional slots with
  | nil => exact pure rfl fun _ _ => ⟨by simp, nofun⟩
  | cons param rest ih =>
    -- Behind the slot there is one way on, whether or not the name is repeated.
    have next (slot : Option Nat) (l : Local) (inner : Env) (P : World → Prop) :
        Builds inner (fun W => P W ∧ env.Extends inner ∧ slot = some l.slot ∧ l ∈ inner.live)
          (StackCode.declareParams (seen.insert param.name) (seenOptional || param.default.isSome)
            (slots.push slot) rest) (do
          let made ← Gen.params inner rest
          return (l :: made.1, made.2)) Prod.snd fun _ all made =>
            all = slots.toList ++ made.1.map (some ·.slot) ∧ ∀ l ∈ made.1, l ∈ made.2.live := by
      refine (ih _ _ _).gen_map (fun _ => rfl) fun W all made given here isMade => ?_
      obtain ⟨-, -, rfl, live⟩ := given
      obtain ⟨rfl, lives⟩ := isMade
      refine ⟨by simp, fun l' member => ?_⟩
      rcases List.mem_cons.1 member with rfl | later
      · exact here.live live
      · exact lives l' later
    unfold StackCode.declareParams
    cases seen.contains param.name with
    | true =>
      simp only [↓reduceIte]
      exact fail ((declareHidden (P := P) param.name param.span).bind fun slot made =>
        markSlot (failIf (next slot made.1 made.2 P))).failed
    | false =>
      simp only [Bool.false_eq_true, ↓reduceIte]
      exact (declareLocal param.name true param.span).bind fun slot made =>
        markSlot (failIf (next slot made.1 made.2 P))

theorem defaultValue {l : Local} (isLive : ∀ W, P W → l ∈ env.live)
    (isValue : Pushes 1 env value g) :
    Builds env P (StackCode.defaultValue l.slot span value) g (fun _ => env) fun W code flow =>
      Coded W 0 0 (.ops [.get env.live l] ++
        .skip .unlessMissing (flow ++ .ops [.set env.live l, .plain .pop])) code := by
  rw [← bind_pure g]
  refine (getSlot span isLive).step fun argument => (isValue _).seq fun value flow => ?_
  refine (setSlot span fun W given => isLive W given.1.1).step fun store => ?_
  refine load (Loads.jump .unlessMissing _ span span) fun skip => pure rfl fun W given => ?_
  obtain ⟨⟨⟨⟨-, isArgument⟩, coded⟩, isStore⟩, distance, rfl, goes⟩ := given
  have read : Coded W 0 1 (.ops [.get env.live l]) argument :=
    .ops isArgument (.one (Nat.zero_le _) rfl)
  have stored : Coded W 1 0 (.ops [.set env.live l, .plain .pop])
      (store ++ Code.plain span .pop) := by
    refine .ops ?_ ⟨Nat.le_refl _, 1, fun _ => rfl, Nat.le_refl _, 0, fun _ => rfl, rfl⟩
    rw [Code.instrs_append]
    exact List.rel_append isStore (.cons (.plain _) .nil)
  rw [Array.append_assoc] at goes
  have skipped : Coded W 1 0 _ _ :=
    Coded.skip .unlessMissing nofun rfl span (coded.append stored) goes
  simpa only [Array.append_assoc] using read.append skipped

/-! ## Constants -/

theorem defineConstant (literal : Option Value) (valueSpan span : Span)
    (plain : ∀ v ∈ literal, v.function? = none) (isValue : Pushes 1 env value g) :
    Runs 0 env (StackCode.defineConstant site name literal valueSpan span value) (do
      let value ←
        match literal with
        | some literal => Pure.pure (.ops [.value literal])
        | none => g
      return (.ops [.constant (some site.fullName), .value (.symbol name)] ++ value ++
        .ops [.plain .defConst], env)) := by
  refine fun P => checked site .constant span (fun s before => ?_) fun _ P => ?_
  · exact (isValue fun _ => True).failed s before
  refine load (Loads.getConst site.fullName span) fun owner => ?_
  refine load (Loads.loadSymbol name span) fun symbol => ?_
  have whole (W : World) (value : Code) (flow : Flow Op)
      (isOwner : Loaded W.pool [.constant (some site.fullName)] owner)
      (isSymbol : Loaded W.pool [.value (.symbol name)] symbol) (coded : Coded W 0 1 flow value) :
      Coded W 0 0 (.ops [.constant (some site.fullName), .value (.symbol name)] ++ flow ++
        .ops [.plain .defConst]) (owner ++ symbol ++ value ++ Code.plain span .defConst) := by
    have named : Coded W 0 2 (.ops [.constant (some site.fullName), .value (.symbol name)])
        (owner ++ symbol) :=
      (isOwner.append isSymbol).coded
        ⟨Nat.zero_le _, 1, fun _ => rfl, Nat.zero_le _, 2, fun _ => rfl, rfl⟩
    exact (named.append (coded.frame 2)).append (.one (.plain _) span (.one (Nat.le_refl _) rfl))
  cases literal with
  | some literal =>
    refine load (Loads.loadValue (plain literal rfl) valueSpan) fun value =>
      pure rfl fun W given => ?_
    exact whole W value _ given.1.1.2 given.1.2 (given.2.coded (.one (Nat.zero_le _) rfl))
  | none =>
    refine (isValue _).seq fun value flow => pure rfl fun W given => ?_
    exact whole W value flow given.1.1.2 given.1.2 given.2

/-! ## Functions -/

/-- The code of a function with a return behind it is that of a flow. -/
def Returns (W : World) (code : Code) (flow : Flow Op) : Prop :=
  flow.Ends ∧ ∀ span stop, Coded W 0 stop flow (code ++ Code.plain span .ret)

/-- The code of a function that returns nil behind it is that of a flow. -/
def ReturnsNil (W : World) (code : Code) (flow : Flow Op) : Prop :=
  flow.Ends ∧ ∀ span stop, Coded W 0 stop flow
    (code ++ (Code.plain span .pushNil ++ Code.plain span .ret))

theorem recordOpened {next : Compile γ} {g : Gen δ} {after : δ → Env} {Q : World → γ → δ → Prop}
    (opened : Option (String × String × String)) (kind : NamespaceKind) (span : Span)
    (rest : ∀ P, Builds env P next g after Q) :
    Builds env P
      (match (true, opened) with
        | (true, some (parent, fullName, name)) => do
          Compile.recordNamespace ⟨fullName, parent, name, kind, span⟩
          next
        | _ => next)
      (Gen.recordOpened kind span opened >>= fun _ => g) after Q := by
  match opened with
  | some (parent, fullName, name) => exact (recordNamespace _).seq fun _ _ => rest _
  | none => exact rest P

section

variable {part : Env → Gen (Flow Op × Env)}
  (made : ∀ inner, Builds inner (fun _ => True) (body site.inBody)
    (part inner) Prod.snd fun W code found => Returns W code found.1)

include made

/-- **A closure** has the code of its scheme, and captures what its text mentions. -/
theorem makeClosure :
    Pushes 1 env (StackCode.makeClosure site params span body) (do
      let scheme ← Gen.nested env true part
      return .ops [.closure env.live scheme]) := by
  refine fun P => get_bind fun s => ?_
  refine (inFunction (Q := Returns) true s.current.ivars made).seq fun ⟨code, frame⟩ scheme => ?_
  have built (W : World) (given : CompleteFrame W env.live true frame scheme ∧
      ∀ W', frame.world scheme ≤ W' → Returns W' code scheme.body) :=
    given.1.built (fun W' le => (given.2 W' le).2 span.ending) (given.2 _ (World.le_refl _)).1
      "<closure>" (fun _ => rfl)
      site.unit.options.file span (requiredCount params) (optionalCount params)
  refine (quiet_of_loads (Loads.addConstant (P := fun _ => _) span fun _ sound _ same =>
    Value.function.inj same ▸ sound) fun W given => (built W given.2).2).step fun index => ?_
  refine pure rfl fun W given => ?_
  obtain ⟨⟨-, complete, returns⟩, found⟩ := given
  refine .one (.closure (built W ⟨complete, returns⟩).1 found complete.fit complete.captures) span
    ?_
  exact .one (Nat.zero_le _) rfl

/-- **A method** has the code of its scheme, and captures nothing. -/
theorem declareMethod :
    Builds env P (StackCode.declareMethod site name params span body) (do
      let scheme ← Gen.nested env false part
      Gen.defineOn site.definitionTarget? fun target => target.methodOps name scheme)
      (fun _ => env) fun _ _ _ => True := by
  refine checked site .method span (fun s before => ?_) fun _ P => get_bind fun s => ?_
  · exact (made env).failed _ before
  refine (inFunction (Q := Returns) false _ made).seq fun ⟨code, frame⟩ scheme => ?_
  dsimp only
  rw [if_pos rfl]
  cases site.definitionTarget? with
  | none => exact pure rfl fun _ _ => trivial
  | some target =>
    have built (W : World) (given : CompleteFrame W env.live false frame scheme ∧
        ∀ W', frame.world scheme ≤ W' → Returns W' code scheme.body) :=
      given.1.built (fun W' le => (given.2 W' le).2 span.ending) (given.2 _ (World.le_refl _)).1
        name nofun
        site.unit.options.file span (requiredCount params) (optionalCount params)
    exact inMembers (Loads.defineMethod target name span fun _ isBuilt => isBuilt)
      (target.chain_method name scheme)
      fun W given => ⟨(built W given.2).1, given.2.1.none rfl, (built W given.2).2⟩

end

/-- **The body of a namespace** has the code of its scheme, if it runs. -/
theorem declareNamespace (kind : NamespaceKind) (path : Path) (runs : Bool) (span : Span)
    (made : ∀ site inner, Runs 0 inner (body site) (part site inner)) :
    Runs 0 env (StackCode.declareNamespace site kind path runs span body) (do
      let legal := site.context.permits (.namespace kind)
      let target := (declarationTarget site.nesting site.unit.lookup path).toOption
      let fullName := (target.map Prod.snd).getD site.fullName
      let opened := if legal then site.opened? kind target else none
      Gen.recordOpened kind span opened
      let scheme ← Gen.nested env false fun env => do
        let (body, env) ← part (site.inNamespace fullName kind legal) env
        return (body ++ .ops [.plain .pushNil, .plain .ret], env)
      if opened.isSome && runs then
        return (.ops [.constant (some fullName), .function scheme, .plain .initNamespace], env)
      else
        return (.ops [], env)) := by
  intro P
  let target := (declarationTarget site.nesting site.unit.lookup path).toOption
  let fullName := (target.map Prod.snd).getD site.fullName
  refine checked site (.namespace kind) span (fun s before => ?_) fun legal P => ?_
  · exact (made (site.inNamespace fullName kind false) env fun _ => True).failed _ before
  simp only [legal, if_true]
  refine recordOpened _ kind span fun P => ?_
  have inside (inner : Env) : Builds inner (fun _ => True)
      (body (site.inNamespace fullName kind true)) (do
        let (body, env) ← part (site.inNamespace fullName kind true) inner
        return (body ++ .ops [.plain .pushNil, .plain .ret], env)) Prod.snd fun W code found =>
          ReturnsNil W code found.1 := by
    refine (made _ inner _).gen_map (fun _ => rfl) fun W code found _ _ coded => ?_
    exact ⟨List.cons_ne_nil _ _, fun span stop => coded.append (coded_retNil span stop)⟩
  refine (inFunction (Q := ReturnsNil) false (.fixed fullName true) inside).seq
    fun ⟨code, frame⟩ scheme => ?_
  dsimp only
  rw [Bool.true_and]
  split
  · have built (W : World) (given : CompleteFrame W env.live false frame scheme ∧
        ∀ W', frame.world scheme ≤ W' → ReturnsNil W' code scheme.body) :=
      given.1.built (fun W' le => (given.2 W' le).2 span.ending) (given.2 _ (World.le_refl _)).1
        ("<namespace: " ++ fullName ++ ">") nofun site.unit.options.file span 0 0
    refine load (Loads.getConst fullName span) fun owner => ?_
    rw [← Array.append_assoc] at built
    refine (quiet_of_loads (Loads.loadFunction (P := fun _ => _) span fun _ isBuilt => isBuilt)
      fun W given => ⟨(built W given.1.2).1, given.1.2.1.none rfl, (built W given.1.2).2⟩).step
      fun function => pure rfl fun W given => ?_
    have loaded := (given.1.2.append given.2).append (.plain span .initNamespace)
    exact loaded.coded ⟨Nat.zero_le _, 1, fun _ => rfl, Nat.zero_le _, 2, fun _ => rfl,
      Nat.le_refl _, 0, fun _ => rfl, rfl⟩
  · exact pure rfl fun _ _ => .nil

theorem singletonBlock (made : ∀ site inner, Runs 0 inner (body site) (part site inner)) :
    Pushes 0 env (StackCode.singletonBlock site span body)
      (Gen.scope env fun env =>
        part (site.within (.inSingleton site.singletonOwner true)) env) := by
  refine fun P => checked site .singleton span (fun s before => ?_) fun _ P => ?_
  · exact (inScope span (made _ env.enter) P).failed s before
  · exact inScope span (made _ env.enter) P

theorem defineEntries {step : DefinitionTarget → γ → Compile Code}
    {operations : DefinitionTarget → γ → List Op} (entries : List γ)
    (each : ∀ target entry P, LoadsAs P (step target entry) (operations target entry))
    (chain : ∀ target entry, Chain Op.effect 0 (operations target entry) 0) :
    Builds env P (do
      if ← Compile.checkDeclaration site declaration span then
        match site.definitionTarget? with
        | none => return
        | some target =>
          Compile.inMembers <| entries.foldlM (fun code entry =>
            return code ++ (← step target entry)) #[])
      (Gen.defineOn site.definitionTarget? fun target => entries.flatMap (operations target))
      (fun _ => env) fun _ _ _ => True := by
  refine checked site declaration span (fun _ before => before) fun _ P => ?_
  rw [if_pos rfl]
  cases site.definitionTarget? with
  | none => exact pure rfl fun _ _ => trivial
  | some target =>
    have loads : Loads (fun _ => True) _ _ := (Loads.fold (P := fun _ => True) (each target)
      entries #[] []).pre fun _ _ => ⟨trivial, .nil⟩
    exact inMembers loads (.flatMap entries fun entry _ => chain target entry) fun _ _ => trivial

end Builds

end StackCode
